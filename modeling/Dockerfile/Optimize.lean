import Dockerfile.Rule.Checks

/-!
The optimizer: what it changes, the passes that make the changes, and their pipeline.
-/

namespace Dockerfile

/-! ### Changes

Each is made at the line of the instruction it concerns.
-/

inductive Change where
  | mergedRuns (count : Nat) (line : Int)
  | pinned (image : Option String) (line : Int)
  | cleaned (line : Int)
  | protocolAdded (line : Int)
  | addReplaced (line : Int)
  | mergedMetadata (keyword : Keyword) (count : Nat) (line : Int)
  | sudoRemoved (line : Int)
  | updatePrepended (line : Int)
  deriving DecidableEq, Repr

namespace Change

def line : Change → Int
  | .mergedRuns _ line | .pinned _ line | .cleaned line | .protocolAdded line | .addReplaced line
  | .mergedMetadata _ _ line | .sudoRemoved line | .updatePrepended line => line

/-- How an image is written that may not be known. -/
def imageText (image : Option String) : String :=
  image.getD "None"

def text : Change → String
  | .mergedRuns count line => s!"Combined {count} RUN commands starting at line {line}."
  | .pinned image line =>
    s!"Pinned untagged base image '{imageText image}' to 'latest' at line {line}."
  | .cleaned line => s!"Appended apt-get cache cleanup to RUN at line {line}."
  | .protocolAdded line => s!"Added default '/tcp' protocol to EXPOSE at line {line}."
  | .addReplaced line => s!"Replaced 'ADD' with 'COPY' for security at line {line}."
  | .mergedMetadata keyword count line =>
    s!"Combined {count} consecutive '{keyword.name}' instructions starting at line {line}."
  | .sudoRemoved line => s!"Removed unnecessary 'sudo' from RUN at line {line}."
  | .updatePrepended line => s!"Prepended 'apt-get update' to RUN at line {line}."

end Change

/-- A list of instructions after some changes, with those changes in order. -/
structure Revision where
  instructions : List Instruction
  changes : List Change
  deriving DecidableEq, Repr

namespace Optimize

/-! ### Passes over single instructions

Each is a partial function from an instruction to the one that replaces it and the change made;
`replaceEach` applies it throughout a list.
-/

open Text Rule

/-- Replaces every instruction for which `f` has a replacement. -/
def replaceEach (f : Instruction → Option (Instruction × Change)) (xs : List Instruction) :
    Revision where
  instructions := xs.map fun i => ((f i).map Prod.fst).getD i
  changes := xs.filterMap fun i => (f i).map Prod.snd

/-- The value of a FROM that is pinned to `latest`. An empty stage name is left out. -/
def pinnedValue (i : Instruction) : String :=
  let base := Change.imageText i.image ++ ":latest"
  match i.stage with
  | none => base
  | some stage => if stage.isEmpty then base else base ++ " as " ++ stage

/-- Pins a base image without a tag. -/
def pin? (i : Instruction) : Option (Instruction × Change) :=
  if i.keyword = .fromImage ∧ i.tag = none then
    let pinned := Instruction.write i.line .fromImage (pinnedValue i)
    some ({ pinned with image := i.image, tag := some "latest", stage := i.stage },
      .pinned i.image i.line)
  else none

/-- Removes the package lists after an installation. -/
def clean? (i : Instruction) : Option (Instruction × Change) :=
  if runs i "apt-get install" && !mentions i.value "rm -rf /var/lib/apt/lists" then
    some (.write i.line .run (strip i.value ++ " \\\n    && rm -rf /var/lib/apt/lists/*"),
      .cleaned i.line)
  else none

/-- Adds the protocol to an exposed port. -/
def addProtocol? (i : Instruction) : Option (Instruction × Change) :=
  if i.keyword == .expose && !hasProtocol i.value then
    some (.write i.line .expose (strip i.value ++ "/tcp"), .protocolAdded i.line)
  else none

/-- Turns ADD into COPY. -/
def addToCopy? (i : Instruction) : Option (Instruction × Change) :=
  if i.keyword = .add then some (.write i.line .copy i.value, .addReplaced i.line) else none

/-- Removes `sudo` from a command. -/
def dropSudo? (i : Instruction) : Option (Instruction × Change) :=
  if runs i "sudo " then
    some (.write i.line .run (removeAll i.value "sudo "), .sudoRemoved i.line)
  else none

/-- Updates the package lists before an installation. -/
def prependUpdate? (i : Instruction) : Option (Instruction × Change) :=
  if runs i "apt-get install" && !mentions i.value "apt-get update" then
    some (.write i.line .run ("apt-get update && " ++ strip i.value), .updatePrepended i.line)
  else none

/-! ### Passes that merge neighbours

A list falls into blocks, the maximal runs of instructions with one keyword; a block of more than one
instruction with a keyword that can be merged becomes a single instruction, at the line of its
first.
-/

/-- The maximal runs of instructions with one keyword. -/
def blocks (xs : List Instruction) : List (List Instruction) :=
  xs.splitBy fun a b => a.keyword == b.keyword

/-- The trimmed values of a block, joined. -/
def joined (separator : String) (block : List Instruction) : String :=
  separator.intercalate (block.map fun i => Text.strip i.value)

/-- Merges one block, if `mergeable` holds of its keyword. -/
def mergeBlock (mergeable : Keyword → Bool) (separator : String)
    (change : Keyword → Nat → Int → Change) : List Instruction → Revision
  | first :: second :: rest =>
    let block := first :: second :: rest
    if mergeable first.keyword then
      ⟨[.write first.line first.keyword (joined separator block)],
        [change first.keyword block.length first.line]⟩
    else ⟨block, []⟩
  | block => ⟨block, []⟩

/-- Merges every block. -/
def mergeBlocks (mergeable : Keyword → Bool) (separator : String)
    (change : Keyword → Nat → Int → Change) (xs : List Instruction) : Revision :=
  let merged := (blocks xs).map (mergeBlock mergeable separator change)
  ⟨merged.flatMap (·.instructions), merged.flatMap (·.changes)⟩

/-- Commands are joined by `&&`, each on a line of its own. -/
def mergeRuns : List Instruction → Revision :=
  mergeBlocks (· == .run) " \\\n    && " fun _ count line => .mergedRuns count line

/-- The keywords that only describe the image or its variables. -/
def isMetadata (k : Keyword) : Bool :=
  k == .env || k == .label || k == .arg

/-- Settings are listed one a line. -/
def mergeMetadata : List Instruction → Revision :=
  mergeBlocks isMetadata " \\\n    " .mergedMetadata

end Optimize

/-! ### The pipeline

The changes of all passes are logged in order.
-/

inductive Pass where
  | mergeRuns | pin | clean | addProtocol | addToCopy | mergeMetadata | dropSudo | prependUpdate
  deriving DecidableEq, Repr

namespace Pass

/-- Every pass, in the order of the pipeline. -/
def all : List Pass :=
  [.mergeRuns, .pin, .clean, .addProtocol, .addToCopy, .mergeMetadata, .dropSudo, .prependUpdate]

def apply : Pass → List Instruction → Revision
  | .mergeRuns => Optimize.mergeRuns
  | .pin => Optimize.replaceEach Optimize.pin?
  | .clean => Optimize.replaceEach Optimize.clean?
  | .addProtocol => Optimize.replaceEach Optimize.addProtocol?
  | .addToCopy => Optimize.replaceEach Optimize.addToCopy?
  | .mergeMetadata => Optimize.mergeMetadata
  | .dropSudo => Optimize.replaceEach Optimize.dropSudo?
  | .prependUpdate => Optimize.replaceEach Optimize.prependUpdate?

/-- Applies one pass after another. -/
def applyAll (xs : List Instruction) : List Pass → Revision
  | [] => ⟨xs, []⟩
  | pass :: rest =>
    let here := pass.apply xs
    let after := applyAll here.instructions rest
    ⟨after.instructions, here.changes ++ after.changes⟩

end Pass

/-- Runs the whole pipeline. -/
def optimize (xs : List Instruction) : Revision :=
  Pass.applyAll xs Pass.all

end Dockerfile
