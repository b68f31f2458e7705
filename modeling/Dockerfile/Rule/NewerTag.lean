import Dockerfile.Instruction
import Dockerfile.Rule.Basic

/-!
The rule that asks a registry for newer versions of a base image, and the versions that it compares.
-/

namespace Dockerfile

/-! ### Versions

* `Version.leading?` — the dotted number that a tag starts with.
* `Version.isHigher` — the order of versions, in which a missing part counts as zero.
-/

/-- The parts of a version, the most significant first. -/
abbrev Version := List Int

namespace Version

/-- The runs of decimal digits, divided by single points, that a text starts with. -/
def leadingParts (cs : List Char) : List (List Char) :=
  ((cs.takeWhile fun c => Text.isDecimal c || c == '.').splitOn '.').takeWhile (! ·.isEmpty)

/-- The number of one part. -/
def readPart (digits : List Char) : Except Fault Int :=
  if Fault.maxDigits < digits.length then .error (.versionTooLong digits.length)
  else .ok (Text.numeral digits)

/-- The version that a tag starts with, if it starts with one. -/
def leading? (tag : String) : Except Fault (Option Version) :=
  match leadingParts tag.toList with
  | [] => .ok none
  | parts => (parts.mapM readPart).map some

/-- The first version is higher than the second. -/
def isHigher : Version → Version → Bool
  | [], [] => false
  | a :: as, [] => 0 < a || a == 0 && isHigher as []
  | [], b :: bs => b < 0 || b == 0 && isHigher [] bs
  | a :: as, b :: bs => b < a || a == b && isHigher as bs

end Version

/-! ### Newer tags

For every FROM with a tag of its own the registry is asked for the tags of its repository. Of the
tags in the same series (the same first two parts) that start with a version, the highest one above
the tag is proposed. A registry that does not answer, or not with a success, counts as one without
tags; one that answers with values of an unexpected sort is a fault.
-/

/-- The answer to a request: its status, and its body where that is JSON. -/
structure Registry.Answer where
  status : Int
  body : Option Json

/-- What a registry answers about the tags of a repository, if it answers at all. -/
abbrev Registry := String → Option Registry.Answer

namespace Rule

open Text

/-- The tag of a FROM that can be compared with others: one is given, and not `latest`. -/
def comparableTag? (i : Instruction) : Option String :=
  match i.keyword, i.tag with
  | .fromImage, some tag => if tag.isEmpty || lower tag == "latest" then none else some tag
  | _, _ => none

def imageName (i : Instruction) : String :=
  i.image.getD ""

/-- The repository of an image; one without a namespace is in the official library. -/
def repository (i : Instruction) : String :=
  if mentions (imageName i) "/" then imageName i else "library/" ++ imageName i

/-- The first two dotted parts of a tag, or all of it. -/
def series (tag : String) : String :=
  match tag.toList.splitOn '.' with
  | major :: minor :: _ => String.ofList (major ++ '.' :: minor)
  | _ => tag

/-- The body of a successful answer. -/
def successBody? (answer : Registry.Answer) : Option Json :=
  if 400 ≤ answer.status ∧ answer.status < 600 then none else answer.body

/-- The entries of a listing. A text and a record hold pieces that are no entries. -/
def entries (body : Json) : Except Fault (List Json) :=
  match body.field? "results" with
  | none | some (.text _) | some (.record _) => .ok []
  | some (.list items) => .ok items
  | some other => .error (.resultsNotListed other.kind)

/-- The name of the tag that an entry describes. -/
def tagName? (entry : Json) : Except Fault (Option String) :=
  match entry.field? "name" with
  | none => .ok none
  | some (.text name) => .ok (if name.isEmpty then none else some name)
  | some other => if other.isVoid then .ok none else .error (.tagNameNotText other.kind)

/-- A tag that the registry has, with its version. -/
structure Candidate where
  version : Version
  name : String
  deriving DecidableEq, Repr

/-- The entry as a candidate of the series. -/
def candidate? (wanted : String) (entry : Json) : Except Fault (Option Candidate) := do
  match ← tagName? entry with
  | none => return none
  | some name =>
    if startsWith name wanted then
      return (← Version.leading? name).map fun version => ⟨version, name⟩
    else return none

/-- The first of the candidates with the greatest version. Here versions are ordered as lists, so
of two that differ in missing zeros only, the longer is greater. -/
def greatest? : List Candidate → Option Candidate
  | [] => none
  | c :: rest => some (rest.foldl (fun best d => if best.version < d.version then d else best) c)

/-- The tag to propose for a tag, out of a listing. -/
def newerTag? (tag : String) (body : Json) : Except Fault (Option String) := do
  let candidates := (← (← entries body).mapM (candidate? (series tag))).filterMap id
  if candidates.isEmpty then return none
  match ← Version.leading? tag with
  | none => return none
  | some current =>
    return (greatest? (candidates.filter (·.version.isHigher current))).map (·.name)

/-- The finding on one instruction. -/
def newerTagFinding (registry : Registry) (i : Instruction) : Except Fault (Option Finding) :=
  match comparableTag? i, (registry (repository i)).bind successBody? with
  | some tag, some body =>
    (newerTag? tag body).map fun found => found.map fun best =>
      { rule := newerTag, line := i.line
        message := s!"Newer version available: {imageName i}:{best}."
        explanation := some newerTag.explanation }
  | _, _ => .ok none

def checkNewerTag (registry : Registry) (xs : List Instruction) : Except Fault (List Finding) :=
  (xs.mapM (newerTagFinding registry)).map (·.filterMap id)

end Rule

end Dockerfile
