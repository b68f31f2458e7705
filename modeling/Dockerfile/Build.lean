import Dockerfile.Outcome

/-!
Building a Dockerfile to measure the image, and comparing two measurements.
-/

namespace Dockerfile.Build

/-! ### The daemon

The build daemon reports on a build in a stream. A piece of the stream is a record. One with output
has its output printed; one with an error and without output ends the build; any other is passed
over. A bare text or list that mentions either is a fault.
-/

/-- The pieces that a build reports, and the fault that breaks the stream off after them, if any
does. -/
structure Stream where
  pieces : List Json
  broken : Option Fault := none

/-- An image. To look up its size in bytes or the number of its layers may fail. -/
structure Image where
  id : String
  size : Except Fault Int
  layers : Except Fault Nat

/-- How the removal of an image ends. A refusal is the daemon's answer and no fault. -/
inductive Removal where
  | done
  | refused (reason : String)
  | failed (f : Fault)
  deriving DecidableEq, Repr

/-- What happens when a tag is built: the stream, the image that is found then, and its removal. -/
structure Script where
  stream : Stream
  image : Except Fault Image
  removal : Removal

/-- A daemon that answers, by the tag to build. -/
abbrev Daemon := String → Script

/-- What one piece of the stream says. -/
inductive Piece where
  | output (line : String)
  | failure (reason : Json)
  | other

/-- A list has the text among its items. -/
def listed (word : String) (items : List Json) : Bool :=
  items.any fun
    | .text s => s == word
    | _ => false

def readPiece : Json → Except Fault Piece
  | .record fields =>
    match fields.lookup "stream", fields.lookup "error" with
    | some (.text s), _ => .ok (.output (Text.strip s))
    | some other, _ => .error (.outputNotText other.kind)
    | none, some reason => .ok (.failure reason)
    | none, none => .ok .other
  | .text s =>
    if Text.mentions s "stream" || Text.mentions s "error" then .error .pieceIsText else .ok .other
  | .list items =>
    if listed "stream" items || listed "error" items then .error .pieceIsList else .ok .other
  | value => .error (.pieceNotContainer value.kind)

/-- Why a build failed, and the pieces of the stream after that. -/
structure Failure where
  reason : Json
  log : List Json

def Failure.message (f : Failure) : String :=
  s!"Build failed with error: {f.reason.message}\nFull log: " ++
    String.join (f.log.map Json.compactText)

/-- Follows the pieces, printing their output, to the end of the stream or to the first failure. -/
def follow (console : Console) (broken : Option Fault) : List Json → Outcome (Option Failure)
  | [] => (Outcome.raiseIf broken).andThen fun _ => .done none
  | piece :: rest =>
    (Outcome.ofExcept (readPiece piece)).andThen fun
      | .output line => (Outcome.print console line).andThen fun _ => follow console broken rest
      | .failure reason => .done (some ⟨reason, rest⟩)
      | .other => follow console broken rest

/-! ### Measurements

The image is removed again whenever there was one, whatever happens in between. A build that fails
leaves the measures at zero and says why; a build that ends without an image is a fault, as is a
stream that cannot be followed.
-/

/-- The times that a clock shows when it is looked at; after them it shows zero. -/
abbrev Clock := List Float

def Clock.now (clock : Clock) : Float × Clock :=
  (clock.head?.getD 0, clock.tail)

structure Measurement where
  tag : String
  sizeMb : Float := 0
  layers : Nat := 0
  seconds : Float := 0
  error : Option String := none

/-- The bytes of an image in megabytes, to two decimals. -/
def megabytes (size : Int) : Except Fault Float :=
  let quotient := Decimal.Binary.ofQuotient size 20
  if quotient.isFinite then .ok (quotient.rounded 2) else .error .sizeTooLarge

def startText (tag : String) : String :=
  s!"Building image [cyan]'{tag}'[/cyan]..."

def successText (tag : String) : String :=
  s!"\n✅ Build successful for [cyan]'{tag}'[/cyan]."

def failureText (tag : String) : String :=
  s!"\n❌ Build failed for [cyan]'{tag}'[/cyan]."

def detailsText (failure : Failure) : String :=
  s!"[bold red]Error Details:[/bold red] {failure.message}"

/-- What is said of an image that was removed. -/
def cleanedText (tag : String) : String :=
  s!"🧹 Cleaned up image [cyan]'{tag}'[/cyan]."

/-- What is said of an image that the daemon does not remove. -/
def refusedText (tag reason : String) : String :=
  s!"[yellow]Warning:[/yellow] Could not remove image '{tag}'. Error: {reason}"

/-- Removes an image. -/
def cleanUp (console : Console) (removal : Removal) (image : Image) (tag : String) :
    Outcome Unit := do
  .ask (.remove image.id)
  match removal with
  | .done => .say console .build (cleanedText tag)
  | .refused reason => .say console .build (refusedText tag reason)
  | .failed f => .raise f

/-- The measures of an image that took `seconds` to build. -/
def measures (console : Console) (image : Image) (seconds : Float) (tag : String) :
    Outcome Measurement := do
  let sizeMb ← .ofExcept (image.size.bind megabytes)
  let layers ← .ofExcept image.layers
  .say console .build (successText tag)
  return { tag, sizeMb, layers, seconds }

/-- Measures the image of a build that was followed to its end, and removes it. -/
def measureImage (console : Console) (script : Script) (clock : Clock) (start : Float)
    (tag : String) : Outcome (Measurement × Clock) := do
  .ask (.find tag)
  let image ← .ofExcept script.image
  let (stop, clock) := clock.now
  let seconds := Decimal.roundTo 2 (stop - start)
  let measured ← (measures console image seconds tag).ensuring
    (cleanUp console script.removal image tag)
  return (measured, clock)

/-- Tells why a build failed, with the rest of the stream. -/
def reportFailure (console : Console) (broken : Option Fault) (failure : Failure) (tag : String) :
    Outcome Measurement := do
  .say console .build (failureText tag)
  .raiseIf broken
  .say console .build (detailsText failure)
  return { tag, error := some failure.message }

/-- Builds a Dockerfile under a tag and measures the image. -/
def benchmark (console : Console) (daemon : Daemon) (clock : Clock) (content tag : String) :
    Outcome (Measurement × Clock) := do
  let script := daemon tag
  .say console .build (startText tag)
  let (start, clock) := clock.now
  .ask (.build tag content)
  match ← follow console script.stream.broken script.stream.pieces with
  | none => measureImage console script clock start tag
  | some failure => return (← reportFailure console script.stream.broken failure tag, clock)

/-! ### Comparisons

Two measurements stand side by side, with the change from the first to the second in percent. A gain
is green and a loss red; both carry a plus sign.
-/

/-- The change between two measures; zero is no measure. -/
def improvement (first second : Float) : String :=
  if first == 0 || second == 0 then "N/A"
  else
    let change := ((first - second) / first) * 100
    if 0.01 < change then "+[green]" ++ Decimal.fixed 1 change ++ "%[/green]"
    else if change < -0.01 then "+[red]" ++ Decimal.fixed 1 (-change) ++ "%[/red]"
    else "0.0%"

def comparisonRows (first second : Measurement) : List (List String) :=
  [["Image Size (MB)", Decimal.shortestText first.sizeMb, Decimal.shortestText second.sizeMb,
      improvement first.sizeMb second.sizeMb],
   ["Layer Count", toString first.layers, toString second.layers,
      improvement (Float.ofNat first.layers) (Float.ofNat second.layers)],
   ["Build Time (s)", Decimal.shortestText first.seconds, Decimal.shortestText second.seconds,
      improvement first.seconds second.seconds]]

/-- The comparison of two measurements; with fewer there is nothing to compare. -/
def comparison (results : List Measurement) : Display :=
  .table ["Metric", "Original", "Optimized", "Improvement"] (some "Benchmark Comparison") <|
    match results with
    | [first, second] => comparisonRows first second
    | _ => []

end Dockerfile.Build
