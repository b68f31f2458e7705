import Dockerfile.Build
import Dockerfile.CommandLine.Call
import Dockerfile.Optimize

/-!
What the commands do, and the program as a whole: a command line in, an outcome out.
-/

namespace Dockerfile

/-! ### Reading a file

The encoding of a file is guessed. Whatever goes wrong is told, and there is no text then.
-/

namespace Source

/-- A share of one in percent, without decimals. -/
def percent (share : Float) : String :=
  Decimal.fixed 0 (share * 100) ++ "%"

/-- Decodes a file as guessed. -/
def decode (console : Console) (source : Source) : Outcome (Option String) :=
  match source.guess.confidence with
  | none => .raise .confidenceMissing
  | some share => do
    let name := source.guess.encoding.getD "None"
    .say console .command
      s!"📝 Detected encoding: [yellow]{name}[/yellow] with {percent share} confidence."
    match source.guess.encoding with
    | none =>
      .say console .command "[bold red]Error:[/bold red] Could not detect file encoding."
      return none
    | some encoding =>
      .ofExcept <| (Encoding.decodeNamed encoding source.bytes).map some |>.mapError .undecodable

/-- What is said of a fault in reading a file. -/
def readFault (console : Console) (f : Fault) : Outcome (Option String) := do
  let text :=
    if f.isAboutFile then "[bold red]Error:[/bold red] Could not read file:"
    else "[bold red]An unexpected error occurred during file reading:[/bold red]"
  .say console .command s!"{text} {f.message}"
  return none

/-- The text of a file, if there is a file and it can be decoded. -/
def read (console : Console) (path : String) (source : Option Source) : Outcome (Option String) :=
  let decoded := match source with
    | some source => source.decode console
    | none => .raise (.fileMissing path)
  decoded.orElse (readFault console)

end Source

namespace CommandLine

/-! ### Commands

The commands are given the files that they are to read. The result of a command is its exit status,
if it sets one.
-/

/-- Announces the rules and checks them. -/
def runRules (console : Console) (registry : Registry) (xs : List Instruction) :
    Outcome (List Finding) := do
  .print console s!"🔬 Running {Rule.all.length} rules..."
  .ofExcept (analyze registry xs)

/-- Checks the text of a Dockerfile and shows the report. The status says whether there are
findings. -/
def lintText (console : Console) (registry : Registry) (format : Report.Format) (explain : Bool)
    (content : String) : Outcome (Option Nat) := do
  let findings ← runRules console registry (parse content)
  Report.display console format explain (findings.map .ofFinding)
  return some (if findings.isEmpty then 0 else 1)

/-- What is said of a fault that ends an analysis. -/
def analysisFault (console : Console) (f : Fault) : Outcome (Option Nat) := do
  let text :=
    if f.isAboutFile then "[bold red]Error:[/bold red] Could not read file:"
    else "[bold red]An unexpected error occurred during analysis:[/bold red]"
  .present console .command [.markup text, .fault f]
  return some 2

/-- Checks a Dockerfile. -/
def lint (console : Console) (registry : Registry) (format : Report.Format) (explain : Bool)
    (path : String) (source : Option Source) : Outcome (Option Nat) := do
  .say console .command s!"🔍 Analyzing Dockerfile at: [cyan]{path}[/cyan]"
  match ← Source.read console path source with
  | none => return some 2
  | some content =>
    (lintText console registry format explain content).orElse (analysisFault console)

/-- Shows the changes and the new text. -/
def showChanges (console : Console) (result : Revision) : Outcome Unit :=
  if result.changes.isEmpty then
    .say console .command "\n[bold green]✅ No optimizable issues found.[/bold green]"
  else do
    .say console .command "\n[bold]✨ Optimizations applied:[/bold]"
    .forEach (fun change => .say console .command ("  - " ++ change.text)) result.changes
    .say console .command "\n[bold]New Optimized Dockerfile:[/bold]"
    .present console .command [.panel (render result.instructions) none]

/-- Optimizes a Dockerfile: prints the new text, or in `pretty` form shows the changes with it. -/
def optimize (console : Console) (pretty : Bool) (path : String) (source : Option Source) :
    Outcome (Option Nat) := do
  match ← Source.read console path source with
  | none => return some 2
  | some content =>
    let result := Dockerfile.optimize (parse content)
    if pretty then
      .say console .command s!"🛠️  Optimizing Dockerfile at: [cyan]{path}[/cyan]"
      showChanges console result
    else .print console (render result.instructions)
    return some 0

/-- Measures a Dockerfile that has a text. -/
def benchmarkSource (console : Console) (daemon : Build.Daemon) (clock : Build.Clock)
    (tag path : String) (source : Option Source) :
    Outcome (List Build.Measurement × Build.Clock) := do
  let content := (← Source.read console path source).getD ""
  if content.isEmpty then return ([], clock)
  else
    let (result, clock) ← Build.benchmark console daemon clock content tag
    return ([result], clock)

/-- Measures two Dockerfiles and compares them. -/
def compareSources (console : Console) (daemon : Except String Build.Daemon) (clock : Build.Clock)
    (firstPath : String) (first : Option Source) (secondPath : String) (second : Option Source) :
    Outcome (Option Nat) := do
  match daemon with
  | .error reason => .raise (.daemonUnreachable reason)
  | .ok daemon =>
    let (a, clock) ←
      benchmarkSource console daemon clock "docktor-benchmark:original" firstPath first
    let (b, _) ←
      benchmarkSource console daemon clock "docktor-benchmark:optimized" secondPath second
    .present console .command [Build.comparison (a ++ b)]
    return none

/-- What becomes of a fault in a comparison: only a daemon that does not answer is told. -/
def benchmarkFault (console : Console) (f : Fault) : Outcome (Option Nat) :=
  match f with
  | .daemonUnreachable _ => do
    .say console .command s!"[bold red]Benchmark Error:[/bold red] {f.message}"
    return some 2
  | _ => .raise f

def benchmark (console : Console) (daemon : Except String Build.Daemon) (clock : Build.Clock)
    (firstPath : String) (first : Option Source) (secondPath : String) (second : Option Source) :
    Outcome (Option Nat) := do
  .say console .command "🚀 Starting Dockerfile benchmark..."
  (compareSources console daemon clock firstPath first secondPath second).orElse
    (benchmarkFault console)

/-! ### The program -/

/-- What the program finds around it. -/
structure Surroundings where
  /-- The name it is called by. -/
  program : String
  place : Place
  console : Console
  registry : Registry
  /-- The build daemon, or why there is none. -/
  daemon : Except String Build.Daemon
  clock : Build.Clock
  /-- Output is for a reader rather than for another program. -/
  pretty : Bool

/-- Carries out a call. -/
def perform (s : Surroundings) : Call → Outcome (Option Nat)
  | .help command => do
    .print s.console (helpText s.program command)
    return some 0
  | .version => .raise .versionUnknown
  | .lint format explain file => lint s.console s.registry format explain file.path file.source
  | .optimize raw file => optimize s.console (s.pretty && !raw) file.path file.source
  | .benchmark first second =>
    benchmark s.console s.daemon s.clock first.path first.source second.path second.source

/-- Runs the program on the words of a command line. -/
def run (s : Surroundings) (words : List String) : Except Rejection (Outcome (Option Nat)) :=
  (call s.place words).map (perform s)

end CommandLine

end Dockerfile
