import Dockerfile.Encoding
import Dockerfile.Json

/-!
How a computation ends, and what it shows and asks for on the way.

* `Fault` — what can go wrong, by cause. `Fault.message` is the one place that words a fault.
* `Event` — something shown on a channel, a line printed, or a request to the build daemon.
* `Console` — where things are shown. What comes out of it is its own affair, and it may refuse
  whatever it is handed.
* `Outcome` — the events of a computation with its result or the fault it ended in. Events before a
  fault stay; `Outcome` is a monad in which later steps add their events.
-/

namespace Dockerfile

/-! ### Faults -/

/-- Why a console does not show something. -/
inductive Refusal where
  /-- What it is written to cannot be written. -/
  | unwritable (code : Int) (reason : String)
  /-- There is no text for it. -/
  | unrendered (reason : String)
  deriving DecidableEq, Repr

def Refusal.message : Refusal → String
  | .unwritable code reason => s!"[Errno {code}] {reason}"
  | .unrendered reason => reason

inductive Fault where
  /-- A blank text was to be read as an instruction. -/
  | blankLine
  /-- A flag that names a stage has no equals sign. -/
  | noStage (line : Int)
  /-- A CMD or ENTRYPOINT in shell form names no program. -/
  | noProgram (line : Int)
  /-- An ENV has no variable before its equals sign. -/
  | noVariable (line : Int)
  /-- The registry's results are a value that holds no entries. -/
  | resultsNotListed (kind : Json.Kind)
  /-- A tag in the registry has a name that is not text. -/
  | tagNameNotText (kind : Json.Kind)
  /-- A part of a version has more digits than are read as a number. -/
  | versionTooLong (digits : Nat)
  /-- A finding is to be explained and has no explanation. -/
  | explanationMissing
  /-- A file is not there. -/
  | fileMissing (path : String)
  /-- The guess at an encoding does not say how sure it is. -/
  | confidenceMissing
  /-- The bytes of a file are no text. -/
  | undecodable (failure : Encoding.Failure)
  /-- Something could not be shown. -/
  | notShown (refusal : Refusal)
  /-- The build daemon does not answer. -/
  | daemonUnreachable (reason : String)
  /-- The build daemon failed at a request. -/
  | daemonFailed (reason : String)
  /-- A build ended without an image. -/
  | imageMissing (tag : String)
  /-- The size of an image in megabytes is too large for a double. -/
  | sizeTooLarge
  /-- The output of a build step is not text. -/
  | outputNotText (kind : Json.Kind)
  /-- A piece of the build stream mentions output or an error and is a bare text. -/
  | pieceIsText
  /-- A piece of the build stream mentions output or an error and is a list. -/
  | pieceIsList
  /-- A piece of the build stream is neither a record nor a text nor a list. -/
  | pieceNotContainer (kind : Json.Kind)
  /-- The version of the program is not known. -/
  | versionUnknown
  deriving DecidableEq, Repr

namespace Fault

/-- The most digits that one part of a version may have. -/
def maxDigits : Nat := 4300

def message : Fault → String
  | .blankLine | .noStage _ | .noProgram _ | .noVariable _ => "list index out of range"
  | .resultsNotListed kind => s!"'{kind.name}' object is not iterable"
  | .tagNameNotText kind => s!"'{kind.name}' object has no attribute 'startswith'"
  | .versionTooLong digits =>
    s!"Exceeds the limit ({maxDigits} digits) for integer string conversion: value has " ++
      s!"{digits} digits; use sys.set_int_max_str_digits() to increase the limit"
  | .explanationMissing => "Only str or Text can be appended to Text"
  | .fileMissing path => s!"[Errno 2] No such file or directory: {Text.quoted path}"
  | .confidenceMissing => "unsupported format string passed to NoneType.__format__"
  | .undecodable failure => failure.message
  | .notShown refusal => refusal.message
  | .daemonUnreachable reason =>
    s!"Docker daemon is not running or accessible. Please start Docker. Error: {reason}"
  | .daemonFailed reason => reason
  | .imageMissing tag => s!"No such image: {tag}"
  | .sizeTooLarge => "integer division result too large for a float"
  | .outputNotText kind => s!"'{kind.name}' object has no attribute 'strip'"
  | .pieceIsText => "string indices must be integers, not 'str'"
  | .pieceIsList => "list indices must be integers or slices, not str"
  | .pieceNotContainer kind => s!"argument of type '{kind.name}' is not iterable"
  | .versionUnknown => "'docktor' is not installed. Try passing 'package_name' instead."

/-- A file that is not there, or one that cannot be written to. -/
def isAboutFile : Fault → Bool
  | .fileMissing _ | .notShown (.unwritable ..) => true
  | _ => false

end Fault

/-! ### Events -/

/-- Where something is shown. -/
inductive Channel where
  | report | command | build
  deriving DecidableEq, Repr

/-- One thing shown. Text is in markup except in a note, which shows it as it is. -/
inductive Display where
  | markup (text : String)
  | panel (content : String) (title : Option String)
  | note (content : String) (title : Option String)
  | table (headers : List String) (title : Option String) (rows : List (List String))
  | fault (f : Fault)
  deriving DecidableEq, Repr

/-- What the build daemon is asked for: to build a Dockerfile under a tag, to look up the image with
a tag, and to remove an image. -/
inductive Request where
  | build (tag : String) (dockerfile : String)
  | find (tag : String)
  | remove (image : String)
  deriving DecidableEq, Repr

inductive Event where
  | shown (channel : Channel) (parts : List Display)
  | printed (line : String)
  | requested (request : Request)
  deriving DecidableEq, Repr

/-- Where things are shown. -/
structure Console where
  /-- The text that comes out for things shown on a channel, unless they are refused. -/
  render : Channel → List Display → Except Refusal String
  /-- Why a line that is printed as it stands is refused, if it is. -/
  refusal? : String → Option Refusal

/-- The text that comes out for an event. -/
def Console.text (console : Console) : Event → String
  | .shown channel parts => (console.render channel parts).toOption.getD ""
  | .printed line => line ++ "\n"
  | .requested _ => ""

/-! ### Outcomes -/

/-- The events of a computation, and its result or fault. -/
structure Outcome (α : Type) where
  events : List Event
  result : Except Fault α

namespace Outcome

variable {α β : Type}

/-- Ends with a result. -/
def done (a : α) : Outcome α :=
  ⟨[], .ok a⟩

/-- Ends in a fault. -/
def raise (f : Fault) : Outcome α :=
  ⟨[], .error f⟩

/-- Ends in the fault, if there is one. -/
def raiseIf : Option Fault → Outcome Unit
  | some f => raise f
  | none => done ()

def ofExcept (result : Except Fault α) : Outcome α :=
  ⟨[], result⟩

/-- Shows things on a channel. -/
def present (console : Console) (channel : Channel) (parts : List Display) : Outcome Unit :=
  match console.render channel parts with
  | .ok _ => ⟨[.shown channel parts], .ok ()⟩
  | .error refusal => raise (.notShown refusal)

/-- Shows a text in markup. -/
def say (console : Console) (channel : Channel) (text : String) : Outcome Unit :=
  present console channel [.markup text]

/-- Prints a line as it stands. -/
def print (console : Console) (line : String) : Outcome Unit :=
  match console.refusal? line with
  | none => ⟨[.printed line], .ok ()⟩
  | some refusal => raise (.notShown refusal)

/-- Asks the build daemon for something. What it answers is not part of this. -/
def ask (request : Request) : Outcome Unit :=
  ⟨[.requested request], .ok ()⟩

/-- Goes on with the result, after the events so far. -/
def andThen (x : Outcome α) (f : α → Outcome β) : Outcome β :=
  match x.result with
  | .ok a => ⟨x.events ++ (f a).events, (f a).result⟩
  | .error fault => ⟨x.events, .error fault⟩

/-- Goes on with the fault, after the events so far. -/
def orElse (x : Outcome α) (f : Fault → Outcome α) : Outcome α :=
  match x.result with
  | .ok a => ⟨x.events, .ok a⟩
  | .error fault => ⟨x.events ++ (f fault).events, (f fault).result⟩

/-- Does something more in any case; a fault in it comes before any other. -/
def ensuring (x : Outcome α) (last : Outcome Unit) : Outcome α :=
  match last.result with
  | .ok () => ⟨x.events ++ last.events, x.result⟩
  | .error fault => ⟨x.events ++ last.events, .error fault⟩

instance : Monad Outcome where
  pure := done
  bind := andThen

/-- Takes the members of a list in turn, up to the first that ends in a fault. -/
def forEach (f : α → Outcome Unit) : List α → Outcome Unit
  | [] => done ()
  | a :: rest => (f a).andThen fun _ => forEach f rest

end Outcome

end Dockerfile
