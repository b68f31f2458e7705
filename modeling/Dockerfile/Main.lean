import Dockerfile.CommandLine.Program

/-!
The command line program. It looks at the files that its words name and prints what the program
says, with markup as it stands. Neither a registry nor a build daemon is connected to it.
-/

namespace Dockerfile.CommandLine

/-- A guess from the bytes alone: text that is valid UTF-8 is taken for it. -/
def guessOfBytes (bytes : List UInt8) : Guess :=
  match Encoding.decodeUtf8 bytes with
  | .ok _ => if bytes.all (· < 0x80) then ⟨some "ascii", some 1⟩ else ⟨some "utf-8", some 0.99⟩
  | .error _ => ⟨some "Windows-1252", some 0.73⟩

/-- The files and folders that the words of a command line lead to. -/
def observe (words : List String) : IO Place := do
  let here ← IO.currentDir
  let folder := Path.resolve [] here.toString
  let mut place : Place := ⟨folder, [], []⟩
  for word in words do
    let path := Path.resolve folder word
    let target := here / path.text
    if ← target.isDir then place := { place with folders := path :: place.folders }
    else if ← target.pathExists then
      let bytes := (← IO.FS.readBinFile target).toList
      place := { place with files := (path, ⟨bytes, guessOfBytes bytes⟩) :: place.files }
  return place

/-- The lines of something shown, the cells of a table divided by tabs. -/
def displayLines : Display → List String
  | .markup text => [text]
  | .panel content title | .note content title => title.toList ++ [content]
  | .table headers title rows => title.toList ++ (headers :: rows).map "\t".intercalate
  | .fault f => [f.message]

/-- A console that reads no markup and refuses nothing. -/
def plainConsole : Console where
  render _ parts := .ok (String.join ((parts.flatMap displayLines).map (· ++ "\n")))
  refusal? _ := none

/-- The commands speak of their progress beside their output. -/
def showEvents (console : Console) (events : List Event) : IO Unit := do
  for event in events do
    match event with
    | .shown .command _ => IO.eprint (console.text event)
    | _ => IO.print (console.text event)

/-- Runs the program and gives its exit status. -/
def start (words : List String) : IO UInt32 := do
  let forced := (← IO.getEnv "DOCKTOR_FORCE_PRETTY").getD ""
  let terminal ← (← IO.getStdout).isTty
  let surroundings : Surroundings :=
    { program := "docktor"
      place := ← observe words
      console := plainConsole
      registry := fun _ => none
      daemon := .error "no daemon"
      clock := []
      pretty := terminal || !forced.isEmpty }
  match run surroundings words with
  | .error rejection =>
    IO.eprint (rejection.text surroundings.program)
    return UInt32.ofNat Rejection.status
  | .ok outcome =>
    showEvents surroundings.console outcome.events
    match outcome.result with
    | .ok status => return UInt32.ofNat (status.getD 0)
    | .error fault =>
      IO.eprintln fault.message
      return 1

end Dockerfile.CommandLine

def main (words : List String) : IO UInt32 :=
  Dockerfile.CommandLine.start words
