import Dockerfile.Report

/-!
From the words of a command line to the call they make, or to what is wrong with them.
-/

namespace Dockerfile.CommandLine

/-! ### Commands and options -/

/-- An option. One with choices takes one of them as its value; one without is a flag. -/
structure Switch where
  name : String
  help : String
  choices : List String := []
  deriving DecidableEq, Repr

def Switch.takesValue (s : Switch) : Bool :=
  !s.choices.isEmpty

def helpSwitch : Switch :=
  ⟨"--help", "Show this message and exit.", []⟩

def versionSwitch : Switch :=
  ⟨"--version", "Show the version and exit.", []⟩

def explainSwitch : Switch :=
  ⟨"--explain", "Show detailed explanations for each issue found.", []⟩

def formatSwitch : Switch :=
  ⟨"--format", "Choose the output format.", ["text", "json"]⟩

def rawSwitch : Switch :=
  ⟨"--raw", "Print the raw, clean Dockerfile content to the terminal.", []⟩

inductive Command where
  | benchmark | lint | optimize
  deriving DecidableEq, Repr

namespace Command

/-- The commands by name. -/
def all : List Command :=
  [.benchmark, .lint, .optimize]

def name : Command → String
  | .benchmark => "benchmark"
  | .lint => "lint"
  | .optimize => "optimize"

def ofName? (s : String) : Option Command :=
  all.find? (·.name == s)

def summary : Command → String
  | .benchmark => "Benchmarks an original and an optimized Dockerfile."
  | .lint => "Analyze a Dockerfile for issues and optimizations."
  | .optimize => "Optimizes a Dockerfile and prints the new version."

/-- The files that a command works on. -/
def parameters : Command → List String
  | .benchmark => ["ORIGINAL_DOCKERFILE", "OPTIMIZED_DOCKERFILE"]
  | .lint | .optimize => ["DOCKERFILE_PATH"]

def switches : Command → List Switch
  | .benchmark => [helpSwitch]
  | .lint => [explainSwitch, formatSwitch, helpSwitch]
  | .optimize => [rawSwitch, helpSwitch]

@[simp]
theorem ofName?_name (c : Command) : ofName? c.name = some c := by
  cases c <;> decide

end Command

/-- The options before a command. -/
def generalSwitches : List Switch :=
  [versionSwitch, helpSwitch]

/-- The options in force with a command, or before any. -/
def switchesOf : Option Command → List Switch
  | none => generalSwitches
  | some command => command.switches

/-! ### Help

The usage line is filled up to 78 characters and goes on under its first argument;
options and commands are listed in two columns.
-/

def usageWidth : Nat := 78

/-- Adds words to lines, the last line so far being `line`; a new line starts with `margin`. -/
def fill (margin line : String) : List String → String
  | [] => line
  | word :: rest =>
    if line.length + 1 + word.length ≤ usageWidth then fill margin (line ++ " " ++ word) rest
    else line ++ "\n" ++ fill margin (margin ++ word) rest

/-- The program with the command, as it is called. -/
def callName (program : String) : Option Command → String
  | none => program
  | some command => program ++ " " ++ command.name

/-- The arguments as usage names them. -/
def usageWords : Option Command → List String
  | none => ["[OPTIONS]", "COMMAND", "[ARGS]..."]
  | some command => "[OPTIONS]" :: command.parameters

def usage (program : String) (command : Option Command) : String :=
  let start := "Usage: " ++ callName program command
  let margin := String.ofList (List.replicate (start.length + 1) ' ')
  fill margin start (usageWords command)

def spaces (n : Nat) : String :=
  String.ofList (List.replicate n ' ')

/-- Two columns, the second two blanks after the widest entry of the first. -/
def columns (rows : List (String × String)) : List String :=
  let width := rows.foldl (fun w (left, _) => max w left.length) 0
  rows.map fun (left, right) => "  " ++ left ++ spaces (width - left.length) ++ "  " ++ right

def switchTerm (s : Switch) : String :=
  if s.takesValue then s.name ++ " [" ++ "|".intercalate s.choices ++ "]" else s.name

def optionLines (command : Option Command) : List String :=
  "Options:" :: columns ((switchesOf command).map fun s => (switchTerm s, s.help))

def bodyLines : Option Command → List String
  | none => optionLines none ++
      ["", "Commands:"] ++ columns (Command.all.map fun c => (c.name, c.summary))
  | some command => ["  " ++ command.summary, ""] ++ optionLines (some command)

/-- The help on a command, or on the program. -/
def helpText (program : String) (command : Option Command) : String :=
  "\n".intercalate (usage program command :: "" :: bodyLines command)

/-! ### Complaints -/

/-- What can be wrong with a command line. -/
inductive Complaint where
  | missingArgument (parameter : String)
  | noSuchFile (parameter path : String)
  | isFolder (parameter path : String)
  | badChoice (switch value : String) (choices : List String)
  | valueMissing (switch : String)
  | valueRefused (switch : String)
  | noSuchOption (name : String) (alike : List String)
  | noSuchCommand (name : String)
  | missingCommand
  | surplusArguments (words : List String)
  deriving DecidableEq, Repr

namespace Complaint

/-- The options that may have been meant. -/
def hint : List String → String
  | [] => ""
  | [name] => s!" Did you mean {name}?"
  | names => " (Possible options: " ++ ", ".intercalate names ++ ")"

def message : Complaint → String
  | .missingArgument parameter => s!"Missing argument '{parameter}'."
  | .noSuchFile parameter path =>
    s!"Invalid value for '{parameter}': File {Text.quoted path} does not exist."
  | .isFolder parameter path =>
    s!"Invalid value for '{parameter}': File {Text.quoted path} is a directory."
  | .badChoice switch value choices =>
    let listed := ", ".intercalate (choices.map Text.quoted)
    s!"Invalid value for '{switch}': {Text.quoted value} is not one of {listed}."
  | .valueMissing switch => s!"Option '{switch}' requires an argument."
  | .valueRefused switch => s!"Option '{switch}' does not take a value."
  | .noSuchOption name alike => s!"No such option: {name}{hint alike}"
  | .noSuchCommand name => s!"No such command {Text.quoted name}."
  | .missingCommand => "Missing command."
  | .surplusArguments words =>
    let noun := if words.length = 1 then "argument" else "arguments"
    let listed := " ".intercalate words
    s!"Got unexpected extra {noun} ({listed})"

/-- The complaint is about the value of an option as such, and made without a word on usage. -/
def isAboutValue : Complaint → Bool
  | .valueMissing _ | .valueRefused _ => true
  | _ => false

end Complaint

/-- A command line that was refused, at a command or before any. -/
structure Rejection where
  command : Option Command
  complaint : Complaint
  deriving DecidableEq, Repr

/-- What is written about a refused command line. -/
def Rejection.text (program : String) (r : Rejection) : String :=
  let error := s!"Error: {r.complaint.message}\n"
  if r.complaint.isAboutValue then error
  else
    let call := callName program r.command
    usage program r.command ++ "\n" ++ s!"Try '{call} --help' for help.\n\n" ++ error

/-- The exit status after a refused command line. -/
def Rejection.status : Nat := 2

/-! ### Options and arguments

A word that starts with a dash and has more to it is an option; the word `--` ends the options. The
value of an option stands after an equals sign or is the next word, whatever that is. Options have
long names only, so one that starts with a single dash is unknown by its first letter.
-/

open Text

/-- The options given, in order, with their values, and the other words. -/
structure Split where
  given : List (String × Option String)
  arguments : List String
  deriving DecidableEq, Repr

namespace Split

def addOption (name : String) (value : Option String) (s : Split) : Split :=
  { s with given := (name, value) :: s.given }

def addArgument (word : String) (s : Split) : Split :=
  { s with arguments := word :: s.arguments }

def gives (s : Split) (switch : Switch) : Bool :=
  s.given.any (·.1 == switch.name)

/-- The value given to an option; the last one counts. -/
def value? (s : Split) (switch : Switch) : Option String :=
  ((s.given.filter (·.1 == switch.name)).getLast?).bind Prod.snd

end Split

def isOption (word : String) : Bool :=
  startsWith word "-" && 1 < word.length

/-- The complaint about an option that is not known. -/
def unknownOption (switches : List Switch) (word : String) : Complaint :=
  if startsWith word "--" then
    let name := before '=' word
    let alike := (switches.map (·.name)).filter fun known => areAlike known name
    .noSuchOption name (alike.mergeSort fun a b => !(b < a))
  else .noSuchOption (String.ofList (word.toList.take 2)) []

/-- Splits the words of a command line. Unless options may stand `anywhere`, the first other word
ends them. -/
def split (switches : List Switch) (anywhere : Bool) : List String → Except Complaint Split
  | [] => .ok ⟨[], []⟩
  | word :: rest =>
    if word = "--" then .ok ⟨[], rest⟩
    else if isOption word then
      let name := before '=' word
      let value := if mentions word "=" then some (after '=' word) else none
      match switches.find? (·.name == name), value, rest with
      | none, _, _ => .error (unknownOption switches word)
      | some switch, none, [] =>
        if switch.takesValue then .error (.valueMissing name)
        else (split switches anywhere []).map (.addOption name none)
      | some switch, none, next :: more =>
        if switch.takesValue then (split switches anywhere more).map (.addOption name (some next))
        else (split switches anywhere (next :: more)).map (.addOption name none)
      | some switch, some value, rest =>
        if switch.takesValue then
          (split switches anywhere rest).map (.addOption name (some value))
        else .error (.valueRefused name)
    else if anywhere then (split switches anywhere rest).map (.addArgument word)
    else .ok ⟨[], word :: rest⟩

/-! ### Files and folders -/

/-- An absolute path: the names on the way from the root. -/
abbrev Path := List String

namespace Path

/-- One step along a path. -/
def enter (path : Path) (name : String) : Path :=
  if name = "" ∨ name = "." then path
  else if name = ".." then path.dropLast
  else path ++ [name]

/-- The path that a text names, seen from a folder. -/
def resolve (folder : Path) (text : String) : Path :=
  let start := if text.toList.head? = some '/' then [] else folder
  ((text.toList.splitOn '/').map String.ofList).foldl enter start

def text (path : Path) : String :=
  "/" ++ "/".intercalate path

end Path

/-- What a path leads to. -/
inductive Node where
  | folder
  | file (source : Source)

/-- Files and empty folders, below a folder that commands are called in. -/
structure Place where
  folder : Path
  files : List (Path × Source)
  folders : List Path

namespace Place

/-- What stands at a path: a file, or a folder on the way to something. -/
def node? (place : Place) (path : Path) : Option Node :=
  match place.files.find? (·.1 == path) with
  | some (_, source) => some (.file source)
  | none =>
    let known := place.folder :: place.folders ++ place.files.map Prod.fst
    if known.any path.isPrefixOf then some .folder else none

end Place

/-! ### Calls

The words are split first. A wish for help comes before anything else; then the values of options
are checked, then the files in order, and surplus words last.
-/

/-- A file that a command is called with. -/
structure Argument where
  path : String
  source : Source

/-- What is called for. -/
inductive Call where
  | help (command : Option Command)
  | version
  | lint (format : Report.Format) (explain : Bool) (file : Argument)
  | optimize (raw : Bool) (file : Argument)
  | benchmark (first second : Argument)

/-- The file that a word names. -/
def fileAt (place : Place) (parameter word : String) : Except Complaint Argument :=
  let path := Path.resolve place.folder word
  match place.node? path with
  | none => .error (.noSuchFile parameter word)
  | some .folder => .error (.isFolder parameter word)
  | some (.file source) => .ok ⟨path.text, source⟩

/-- The files for the parameters, in order, and the words that are left. -/
def files (place : Place) : List String → List String →
    Except Complaint (List Argument × List String)
  | [], words => .ok ([], words)
  | parameter :: _, [] => .error (.missingArgument parameter)
  | parameter :: more, word :: words => do
    let file ← fileAt place parameter word
    let (rest, left) ← files place more words
    return (file :: rest, left)

/-- The format that was chosen. -/
def formatOf (s : Split) : Except Complaint Report.Format :=
  match s.value? formatSwitch with
  | none | some "text" => .ok .text
  | some "json" => .ok .json
  | some other => .error (.badChoice formatSwitch.name other formatSwitch.choices)

/-- The call of a command with its words split. -/
def callOf (place : Place) (command : Command) (s : Split) : Except Complaint Call :=
  if s.gives helpSwitch then .ok (.help (some command))
  else do
    let format ← formatOf s
    let (found, surplus) ← files place command.parameters s.arguments
    if !surplus.isEmpty then .error (.surplusArguments surplus)
    else match command, found with
      | .lint, [file] => .ok (.lint format (s.gives explainSwitch) file)
      | .optimize, [file] => .ok (.optimize (s.gives rawSwitch) file)
      | .benchmark, [first, second] => .ok (.benchmark first second)
      | _, _ => .error (.surplusArguments surplus)

def callCommand (place : Place) (command : Command) (words : List String) :
    Except Rejection Call :=
  ((split command.switches true words).bind (callOf place command)).mapError
    fun complaint => ⟨some command, complaint⟩

/-- The words before a command: a call of their own, or the words from the command on. No words at
all are a wish for help. -/
def general (words : List String) : Except Complaint (Call ⊕ List String) :=
  if words.isEmpty then .ok (.inl (.help none))
  else (split generalSwitches false words).map fun s =>
    match s.given with
    | (name, _) :: _ => .inl (if name = helpSwitch.name then .help none else .version)
    | [] => .inr s.arguments

/-- An unknown command is a complaint, unless it starts with something else than a letter or a
number. It may then be an option gone astray, and whatever follows it, help is what is wanted. -/
def unknownCommand (word : String) : Except Complaint Call :=
  match word.toList with
  | [] => .error (.noSuchCommand word)
  | c :: _ => if Text.isAlphanumeric c then .error (.noSuchCommand word) else .ok (.help none)

/-- The call that a command line makes. -/
def call (place : Place) (words : List String) : Except Rejection Call :=
  let early (complaint : Complaint) : Rejection := ⟨none, complaint⟩
  match general words with
  | .error complaint => .error (early complaint)
  | .ok (.inl call) => .ok call
  | .ok (.inr []) => .error (early .missingCommand)
  | .ok (.inr (word :: rest)) =>
    match Command.ofName? word with
    | some command => callCommand place command rest
    | none => (unknownCommand word).mapError early

end Dockerfile.CommandLine
