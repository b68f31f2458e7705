import Dockerfile.Proofs.Json.RoundTrip
import Dockerfile.Proofs.Outcome
import Dockerfile.Report

/-!
Reading reports in JSON back.

`entriesOf?` reads a JSON text and takes each record's fields by their keys. The text of a report is
in ASCII, and `entriesOf?` gives the entries it was made of. What is printed is what the console
makes of that text (`Outcome.printed`). It can be read back where the console prints the text as it
stands (`decodes_display`), but the text is handed over as markup, and on a console that takes tags
out of markup two reports may look alike (`printed_tag_eq`).
-/

namespace Dockerfile

namespace Json

def text? : Json → Option String
  | .text s => some s
  | _ => none

def int? : Json → Option Int
  | .int n => some n
  | _ => none

/-- A text or null. -/
def option? : Json → Option (Option String)
  | .null => some none
  | .text s => some (some s)
  | _ => none

end Json

namespace Report

/-- The entry that a record describes. -/
def Entry.ofJson? (v : Json) : Option Entry := do
  return {
    ruleId := ← (← v.field? "rule_id").text?
    message := ← (← v.field? "message").text?
    line := ← (← v.field? "line_number").int?
    severity := ← (← v.field? "severity").text?
    explanation := ← (← v.field? "explanation").option?
    suggestion := ← (← v.field? "fix_suggestion").option? }

/-- The entries that a JSON text lists. -/
def entriesOf? (text : String) : Option (List Entry) :=
  match Json.ofText? text with
  | some (.list items) => items.mapM Entry.ofJson?
  | _ => none

theorem option?_jsonOfOption (s : Option String) : (jsonOfOption s).option? = some s := by
  cases s <;> rfl

theorem exact_jsonOfOption (s : Option String) : (jsonOfOption s).Exact := by
  cases s with
  | none => exact .null
  | some s => exact .text s

theorem Entry.ofJson?_toJson (e : Entry) : Entry.ofJson? e.toJson = some e := by
  simp [ofJson?, toJson, Json.field?, List.lookup_cons, Json.text?, Json.int?, option?_jsonOfOption]

theorem Entry.exact_toJson (e : Entry) : e.toJson.Exact := by
  refine .record (by simp) ?_
  simp only [List.forall_mem_cons]
  exact ⟨.text _, .text _, .int _, .text _, exact_jsonOfOption _, exact_jsonOfOption _,
    List.forall_mem_nil _⟩

theorem exact_list_toJson (entries : List Entry) : (Json.list (entries.map Entry.toJson)).Exact :=
  .list (List.forall_mem_map.mpr fun e _ => e.exact_toJson)

theorem mapM_ofJson?_toJson (entries : List Entry) :
    (entries.map Entry.toJson).mapM Entry.ofJson? = some entries := by
  induction entries with
  | nil => rfl
  | cons e rest ih => simp [List.mapM_cons, Entry.ofJson?_toJson, ih]

/-- The entries of a report are read from its text, with or without blanks after it. -/
theorem entriesOf?_jsonText_append (entries : List Entry) {blanks : String}
    (blank : ∀ c ∈ blanks.toList, Json.isJsonBlank c = true) :
    entriesOf? (jsonText entries ++ blanks) = some entries := by
  have read := Json.ofText?_indentedText_append (exact_list_toJson entries) blank
  simp only [entriesOf?, jsonText, read, mapM_ofJson?_toJson]

theorem entriesOf?_jsonText (entries : List Entry) :
    entriesOf? (jsonText entries) = some entries := by
  rw [← @String.append_empty (jsonText entries)]
  exact entriesOf?_jsonText_append entries (by simp)

theorem entriesOf?_jsonText_line (entries : List Entry) :
    entriesOf? (jsonText entries ++ "\n") = some entries :=
  entriesOf?_jsonText_append entries (by simp [Json.isJsonBlank])

theorem ascii_jsonText (entries : List Entry) : Json.Ascii (jsonText entries).toList := by
  rw [jsonText, Json.indentedText, String.toList_ofList]
  exact (exact_list_toJson entries).ascii 0

end Report

/-- The text that comes out of a console in the course of a computation. -/
def Outcome.printed {α : Type} (console : Console) (x : Outcome α) : String :=
  String.join (x.events.map console.text)

namespace Report

theorem printed_display (console : Console) (explain : Bool) (entries : List Entry) :
    (display console .json explain entries).printed console
      = (console.render .report [.markup (jsonText entries)]).toOption.getD "" := by
  unfold display Outcome.say Outcome.present
  cases rendered : console.render .report [.markup (jsonText entries)] with
  | error refusal => rfl
  | ok output => simp [Outcome.printed, Console.text, rendered]

theorem entriesOf?_printed_iff {console : Console} {explain : Bool} {entries : List Entry} :
    entriesOf? ((display console .json explain entries).printed console) = some entries ↔
      ∃ output, console.render .report [.markup (jsonText entries)] = .ok output ∧
        entriesOf? output = some entries := by
  have nothing : entriesOf? "" = none := rfl
  rw [printed_display]
  cases console.render .report [.markup (jsonText entries)] with
  | error refusal => simp [Except.toOption, nothing]
  | ok output => simp [Except.toOption]

/-- A console that prints what `read` makes of a text in markup, with a line break after it. -/
def markupConsole (read : String → String) : Console where
  render _ parts := .ok (String.join (parts.map fun
    | .markup text => read text ++ "\n"
    | _ => ""))
  refusal? _ := none

theorem render_markupConsole (read : String → String) (text : String) :
    (markupConsole read).render .report [.markup text] = .ok (read text ++ "\n") := by
  simp [markupConsole]

/-- The entries of a report in JSON make up one text in ASCII, from which they are read back: each
field, and in the order given. This text is put on the console as markup, so they can be read from
what is printed exactly if they can be read from what the console makes of the text. On a console
that prints such a text as it stands, with a line break after it, the report can be read back, and
different entries make different reports. -/
theorem decodes_display (console : Console) (explain : Bool) :
    ∃ text : List Entry → String,
      (∀ entries, Json.Ascii (text entries).toList ∧ entriesOf? (text entries) = some entries ∧
        display console .json explain entries = .say console .report (text entries)) ∧
      (∀ entries,
        entriesOf? ((display console .json explain entries).printed console) = some entries ↔
          ∃ output, console.render .report [.markup (text entries)] = .ok output ∧
            entriesOf? output = some entries) ∧
      ((∀ entries, console.render .report [.markup (text entries)]
          = .ok (text entries ++ "\n")) →
        (∀ entries, (display console .json explain entries).result = .ok () ∧
          Json.Ascii ((display console .json explain entries).printed console).toList ∧
          entriesOf? ((display console .json explain entries).printed console)
            = some entries) ∧
        Function.Injective fun entries =>
          (display console .json explain entries).printed console) := by
  refine ⟨jsonText, fun entries => ⟨ascii_jsonText entries, entriesOf?_jsonText entries, rfl⟩,
    fun entries => entriesOf?_printed_iff, fun verbatim => ?_⟩
  have printed (entries : List Entry) :
      (display console .json explain entries).printed console = jsonText entries ++ "\n" := by
    rw [printed_display, verbatim]
    rfl
  refine ⟨fun entries => ⟨?_, ?_, ?_⟩, fun entries others same => ?_⟩
  · exact Outcome.result_say ⟨_, verbatim entries⟩
  · rw [printed, String.toList_append, Json.ascii_append]
    exact ⟨ascii_jsonText entries, by simp [Json.Ascii]⟩
  · rw [printed]
    exact entriesOf?_jsonText_line entries
  · simp only [printed] at same
    rw [← Option.some_inj, ← entriesOf?_jsonText_line entries, same, entriesOf?_jsonText_line]

/-- On a console that prints markup as it stands, a message with brackets is read back. -/
theorem decodes_display_brackets :
    let console := markupConsole id
    let entries : List Entry := [⟨"BP001", "a[b]c", 1, "warning", none, none⟩]
    entriesOf? ((display console .json false entries).printed console) = some entries := by
  intro console entries
  obtain ⟨text, -, -, verbatim⟩ := decodes_display console false
  obtain ⟨readBack, -⟩ := verbatim fun entries => render_markupConsole id (text entries)
  exact (readBack entries).2.2

theorem removeAll_jsonText {entries others : List Entry} {phrase : String}
    (h : Text.removeFrom phrase.toList 0 (Json.indented 0 (.list (entries.map Entry.toJson)))
      = Json.indented 0 (.list (others.map Entry.toJson))) :
    Text.removeAll (jsonText entries) phrase = jsonText others := by
  rw [Text.removeAll, jsonText, jsonText, Json.indentedText, Json.indentedText,
    String.toList_ofList, h]

/-- Where the console takes the tag for bold type out of markup, the same message loses it: its
report is that on another message, and reading it back gives the other. -/
theorem printed_tag_eq :
    let console := markupConsole (Text.removeAll · "[b]")
    let report (message : String) := (display console .json false
      [⟨"BP001", message, 1, "warning", none, none⟩]).printed console
    report "a[b]c" = report "ac" ∧
      entriesOf? (report "a[b]c") = some [⟨"BP001", "ac", 1, "warning", none, none⟩] := by
  intro console report
  have printed (message : String) : report message = Text.removeAll
      (jsonText [⟨"BP001", message, 1, "warning", none, none⟩]) "[b]" ++ "\n" :=
    (printed_display ..).trans (by rw [render_markupConsole]; rfl)
  have tagged := @removeAll_jsonText [⟨"BP001", "a[b]c", 1, "warning", none, none⟩]
    [⟨"BP001", "ac", 1, "warning", none, none⟩] "[b]" (by decide +kernel)
  have plain := @removeAll_jsonText [⟨"BP001", "ac", 1, "warning", none, none⟩]
    [⟨"BP001", "ac", 1, "warning", none, none⟩] "[b]" (by decide +kernel)
  rw [printed, printed, tagged, plain]
  exact ⟨rfl, entriesOf?_jsonText_line _⟩

end Report

end Dockerfile
