import Dockerfile.Outcome
import Dockerfile.Rule.Basic

/-!
Reports on findings.

A report shows entries, whose rule is a plain text. As JSON it is one document that lists the
entries in the order given. As text it counts the severities, lists the entries by line and, if
asked, explains them by rule; entries with one line, or one rule, stay in the order given.
-/

namespace Dockerfile.Report

structure Entry where
  ruleId : String
  message : String
  line : Int
  severity : String := "warning"
  explanation : Option String := none
  suggestion : Option String := none
  deriving DecidableEq, Repr

def Entry.ofFinding (f : Finding) : Entry where
  ruleId := f.rule.code
  message := f.message
  line := f.line
  severity := f.severity
  explanation := f.explanation
  suggestion := f.suggestion

inductive Format where
  | text | json
  deriving DecidableEq, Repr

/-! ### As JSON -/

def jsonOfOption (s : Option String) : Json :=
  (s.map .text).getD .null

def Entry.toJson (e : Entry) : Json :=
  .record [("rule_id", .text e.ruleId), ("message", .text e.message), ("line_number", .int e.line),
    ("severity", .text e.severity), ("explanation", jsonOfOption e.explanation),
    ("fix_suggestion", jsonOfOption e.suggestion)]

def jsonText (entries : List Entry) : String :=
  Json.indentedText (.list (entries.map Entry.toJson))

/-! ### As text -/

def count (severity : String) (entries : List Entry) : Nat :=
  entries.countP (·.severity == severity)

/-- How many entries of each of the three severities there are. -/
def summary (entries : List Entry) : String :=
  let warnings := count "warning" entries
  let infos := count "info" entries
  let errors := count "error" entries
  s!"⚠️  [yellow]{warnings} warnings[/yellow]\n" ++ s!"ℹ️  [blue]{infos} info[/blue]\n" ++
    s!"❌  [red]{errors} errors[/red]"

/-- A severity in its colour; any other text stands as it is. -/
def styled (severity : String) : String :=
  if severity = "warning" then "[yellow]warning[/yellow]"
  else if severity = "error" then "[bold red]error[/bold red]"
  else if severity = "info" then "[blue]info[/blue]"
  else severity

def byLine (entries : List Entry) : List Entry :=
  entries.mergeSort fun a b => a.line ≤ b.line

/-- Rules are ordered by the code points of their texts. -/
def byRule (entries : List Entry) : List Entry :=
  entries.mergeSort fun a b => !(b.ruleId < a.ruleId)

def row (e : Entry) : List String :=
  [toString e.line, e.ruleId, styled e.severity, e.message]

def table (entries : List Entry) : Display :=
  .table ["Line", "Rule ID", "Severity", "Message"] none ((byLine entries).map row)

/-- Explains one entry. -/
def explanation (console : Console) (e : Entry) : Outcome Unit :=
  match e.explanation with
  | none => .raise .explanationMissing
  | some why => .present console .report
      [.note (e.ruleId ++ ": " ++ e.message ++ "\n\n" ++ why)
        (some ("Explanation for Rule " ++ e.ruleId))]

def showText (console : Console) (explain : Bool) (entries : List Entry) : Outcome Unit :=
  if entries.isEmpty then
    .say console .report "\n[bold green]✅ No issues found. Well done![/bold green]"
  else do
    .present console .report [.panel (summary entries) (some "[bold]Issues Found[/bold]")]
    .present console .report [table entries]
    if explain then
      .say console .report "\n[bold]💡 Explanations[/bold]"
      .forEach (explanation console) (byRule entries)

/-- Shows a report. JSON carries the explanations in any case. -/
def display (console : Console) (format : Format) (explain : Bool) (entries : List Entry) :
    Outcome Unit :=
  match format with
  | .json => .say console .report (jsonText entries)
  | .text => showText console explain entries

end Dockerfile.Report
