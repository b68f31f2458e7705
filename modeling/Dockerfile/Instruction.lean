import Dockerfile.Outcome
import Dockerfile.Text.Basic

/-!
The instructions of a Dockerfile, and reading them from its text.
-/

namespace Dockerfile

/-! ### Keywords

A comment and an unknown word count as keywords of their own, written `#` and `UNKNOWN`.
`ofName?_name` says that a keyword is found again under its name.
-/

inductive Keyword where
  | fromImage | run | cmd | label | expose | env | add | copy | entrypoint | volume | user
  | workdir | arg | onbuild | stopsignal | healthcheck | shell | comment | unknown
  deriving DecidableEq, Repr

namespace Keyword

def all : List Keyword :=
  [.fromImage, .run, .cmd, .label, .expose, .env, .add, .copy, .entrypoint, .volume, .user,
   .workdir, .arg, .onbuild, .stopsignal, .healthcheck, .shell, .comment, .unknown]

def name : Keyword → String
  | .fromImage => "FROM"
  | .run => "RUN"
  | .cmd => "CMD"
  | .label => "LABEL"
  | .expose => "EXPOSE"
  | .env => "ENV"
  | .add => "ADD"
  | .copy => "COPY"
  | .entrypoint => "ENTRYPOINT"
  | .volume => "VOLUME"
  | .user => "USER"
  | .workdir => "WORKDIR"
  | .arg => "ARG"
  | .onbuild => "ONBUILD"
  | .stopsignal => "STOPSIGNAL"
  | .healthcheck => "HEALTHCHECK"
  | .shell => "SHELL"
  | .comment => "#"
  | .unknown => "UNKNOWN"

def ofName? (s : String) : Option Keyword :=
  all.find? (·.name == s)

@[simp]
theorem ofName?_name (k : Keyword) : ofName? k.name = some k := by
  cases k <;> decide

theorem mem_all (k : Keyword) : k ∈ all := by
  cases k <;> decide

end Keyword

/-! ### Base images

The base image of a build stage, as FROM names it: `IMAGE[:TAG] [as STAGE]`.

The image runs up to the first colon or blank and the tag up to the next blank; each has at least
one character. The word `as` is read in any case, and its second letter also as a long s. Nothing
but one line feed may follow.
-/

/-- The parts of a FROM that names its base image in the plain form. -/
structure BaseImage where
  image : String
  tag : Option String
  stage : Option String
  deriving DecidableEq, Repr

namespace BaseImage

open Text (isBlank)

/-- The text ends here, or with a line feed. -/
def atEnd (cs : List Char) : Bool :=
  cs == [] || cs == ['\n']

def isWordAs (a s : Char) : Bool :=
  (a == 'a' || a == 'A') && (s == 's' || s == 'S' || s == 'ſ')

/-- A last word, at least one character long. -/
def lastWord? (cs : List Char) : Option String :=
  let word := cs.takeWhile (! isBlank ·)
  if !word.isEmpty && atEnd (cs.dropWhile (! isBlank ·)) then some (String.ofList word) else none

/-- What follows image and tag: nothing, or the name of the stage after the word `as`. -/
def readStage? (cs : List Char) : Option (Option String) :=
  if atEnd cs then some none
  else match cs.dropWhile isBlank with
    | a :: s :: blank :: rest =>
      if isWordAs a s && isBlank blank then (lastWord? (rest.dropWhile isBlank)).map some
      else none
    | _ => none

def ofChars? (cs : List Char) : Option BaseImage :=
  let inImage := fun c => c != ':' && ! isBlank c
  let image := cs.takeWhile inImage
  if image.isEmpty then none
  else match cs.dropWhile inImage with
    | ':' :: rest =>
      let tag := rest.takeWhile (! isBlank ·)
      if tag.isEmpty then none
      else (readStage? (rest.dropWhile (! isBlank ·))).map fun stage =>
        ⟨String.ofList image, some (String.ofList tag), stage⟩
    | rest => (readStage? rest).map fun stage => ⟨String.ofList image, none, stage⟩

/-- The base image that the value of a FROM names. -/
def ofValue? (value : String) : Option BaseImage :=
  ofChars? value.toList

end BaseImage

/-! ### Instructions

A text that starts with `#` is a comment. Of any other, the first word in upper case gives the
keyword and what follows it the value; for FROM the value is taken apart too, where it has the
plain form. Only a blank text is no instruction.
-/

/-- One instruction. `text` is all of it as written; `image`, `tag` and `stage` are known for a FROM
in the plain form only. -/
structure Instruction where
  line : Int
  keyword : Keyword
  text : String
  value : String
  image : Option String := none
  tag : Option String := none
  stage : Option String := none
  deriving DecidableEq, Repr

namespace Instruction

/-- An instruction written out from its keyword and value, which knows no base image. -/
def write (line : Int) (keyword : Keyword) (value : String) : Instruction :=
  { line, keyword, text := keyword.name ++ " " ++ value, value }

/-- A keyword, in any case; any other word is the unknown keyword. -/
def keywordOf (word : String) : Keyword :=
  (Keyword.ofName? (Text.upper word)).getD .unknown

/-- A FROM with the parts of its base image. -/
def withBase (i : Instruction) (base : BaseImage) : Instruction :=
  { i with image := some base.image, tag := base.tag, stage := base.stage }

/-- The instruction that a text writes. -/
def read (line : Int) (text : String) : Except Fault Instruction :=
  match text.toList with
  | '#' :: rest =>
    .ok { line, keyword := .comment, text, value := String.ofList (Text.trim rest) }
  | _ =>
    match Text.firstWord? text with
    | none => .error .blankLine
    | some (word, value) =>
      let keyword := keywordOf word
      let plain : Instruction := { line, keyword, text, value }
      .ok <| match keyword, BaseImage.ofValue? value with
        | .fromImage, some base => plain.withBase base
        | _, _ => plain

end Instruction

/-! ### Logical lines

Physical lines are trimmed and blank ones passed over. A line that ends in a backslash continues:
its pieces, without the backslashes and trimmed, are joined by single blanks with the first line
that does not continue, and the whole has the number of the first piece. Pieces that nothing
completes are dropped.
-/

/-- A logical line, with the number of the physical line it starts at. -/
structure LogicalLine where
  number : Nat
  chars : List Char
  deriving DecidableEq, Repr

namespace LogicalLine

/-- The pieces of a line that is not complete yet. -/
structure Pending where
  number : Nat
  pieces : List (List Char)
  deriving DecidableEq, Repr

/-- Adds a piece that continues. -/
def Pending.push (number : Nat) (piece : List Char) : Option Pending → Pending
  | none => ⟨number, [piece]⟩
  | some p => { p with pieces := p.pieces ++ [piece] }

/-- The line that a last piece completes. -/
def Pending.complete (number : Nat) (piece : List Char) : Option Pending → LogicalLine
  | none => ⟨number, piece⟩
  | some p => ⟨p.number, [' '].intercalate (p.pieces ++ [piece])⟩

/-- The logical lines of physical ones, the first of which has the given number. -/
def gather (pending : Option Pending) (number : Nat) : List (List Char) → List LogicalLine
  | [] => []
  | physical :: rest =>
    let line := Text.trim physical
    if line.isEmpty then gather pending (number + 1) rest
    else if line.getLast? = some '\\' then
      gather (some (Pending.push number (Text.trim line.dropLast) pending)) (number + 1) rest
    else Pending.complete number line pending :: gather none (number + 1) rest

def ofText (content : String) : List LogicalLine :=
  gather none 1 (Text.linesOf content.toList)

/-- The instruction that a logical line writes. -/
def read (l : LogicalLine) : Except Fault Instruction :=
  Instruction.read l.number (String.ofList l.chars)

end LogicalLine

/-- The instructions of a Dockerfile. A logical line is never blank, so each of them is one. -/
def parse (content : String) : List Instruction :=
  (LogicalLine.ofText content).filterMap fun l => l.read.toOption

/-- The text of a Dockerfile with these instructions. -/
def render (instructions : List Instruction) : String :=
  "\n".intercalate (instructions.map (·.text))

end Dockerfile
