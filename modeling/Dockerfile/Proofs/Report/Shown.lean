import Mathlib.Data.List.Lex
import Mathlib.Data.String.Basic
import Dockerfile.Report
import Dockerfile.Proofs.Outcome
import Dockerfile.Proofs.Rule.Analysis

/-!
What a report in text shows.

Explanations are shown up to the first entry that has none. If every entry has one (`Explained`), as
the findings of an analysis do, and the console refuses nothing, the report is a fixed list of
events (`showText_eq`).

The rows of its table are the entries by line, and its notes the entries by rule; both lists are
sorted stably, and a list can be sorted stably in one way only (`StablySorted.unique`), so each entry
is shown once and ties stay in the order given. The numbers in the summary count the entries by
severity. A finding has one of the three severities that are counted, so for the entries of an
analysis they add up to the number of rows.
-/

namespace Dockerfile

open Outcome

/-! ### Stable sorting -/

section StablySorted

variable {α κ : Type} [LinearOrder κ] {key : α → κ}

/-- The second list is the first one in the order of a key, with ties in the order of the first. -/
structure StablySorted (key : α → κ) (as bs : List α) : Prop where
  perm : bs.Perm as
  ordered : bs.Pairwise fun b b' => key b ≤ key b'
  stable : ∀ k, bs.filter (key · = k) = as.filter (key · = k)

theorem stablySorted_mergeSort {le : α → α → Bool} (hle : ∀ a b, le a b = true ↔ key a ≤ key b)
    (as : List α) : StablySorted key as (as.mergeSort le) := by
  have trans : ∀ a b c, le a b = true → le b c = true → le a c = true := by
    simp only [hle]
    exact fun a b c => le_trans
  have total : ∀ a b, (le a b || le b a) = true := by
    simp only [Bool.or_eq_true, hle]
    exact fun a b => le_total _ _
  have perm : (as.mergeSort le).Perm as := List.mergeSort_perm as le
  refine ⟨perm, (List.pairwise_mergeSort trans total as).imp (hle _ _).mp, fun k => ?_⟩
  -- the members with one key are in order as they stand, so sorting keeps them so
  have tied : (as.filter (key · = k)).Pairwise fun a b => le a b = true := by
    rw [List.pairwise_filter]
    refine List.pairwise_of_forall fun a b ha hb => ?_
    rw [decide_eq_true_iff] at ha hb
    exact (hle a b).mpr (ha.trans hb.symm).le
  have kept := (List.sublist_mergeSort trans total tied List.filter_sublist).filter (key · = k)
  rw [List.filter_filter] at kept
  simp only [Bool.and_self] at kept
  exact (kept.eq_of_length (perm.filter _).length_eq.symm).symm

/-- Ties need to be compared only for the keys that there are. -/
theorem stablySorted_iff {as bs : List α} : StablySorted key as bs ↔
    bs.Perm as ∧ (bs.Pairwise fun b b' => key b ≤ key b') ∧
      ∀ a ∈ as, bs.filter (key · = key a) = as.filter (key · = key a) := by
  constructor
  · rintro ⟨perm, ordered, stable⟩
    exact ⟨perm, ordered, fun a _ => stable (key a)⟩
  · rintro ⟨perm, ordered, stable⟩
    refine ⟨perm, ordered, fun k => ?_⟩
    by_cases occurs : ∃ a ∈ as, key a = k
    · obtain ⟨a, mem, rfl⟩ := occurs
      exact stable a mem
    · have none : as.filter (key · = k) = [] := by simpa using occurs
      rw [none, ← List.perm_nil, ← none]
      exact perm.filter _

instance [DecidableEq α] {as bs : List α} : Decidable (StablySorted key as bs) :=
  decidable_of_iff _ stablySorted_iff.symm

theorem mem_of_filter_eq {a : α} {bs cs : List α}
    (same : ∀ k, bs.filter (key · = k) = cs.filter (key · = k)) (h : a ∈ bs) : a ∈ cs := by
  have mem : a ∈ bs.filter (key · = key a) := by simpa using h
  rw [same] at mem
  exact (List.mem_filter.mp mem).1

/-- Two lists in the order of a key that agree on each key are the same. -/
theorem eq_of_filter_eq {bs cs : List α} (hb : bs.Pairwise fun b b' => key b ≤ key b')
    (hc : cs.Pairwise fun c c' => key c ≤ key c')
    (same : ∀ k, bs.filter (key · = k) = cs.filter (key · = k)) : bs = cs := by
  induction bs generalizing cs with
  | nil =>
    refine (List.eq_nil_iff_forall_not_mem.mpr fun c mem => ?_).symm
    exact List.not_mem_nil (mem_of_filter_eq (fun k => (same k).symm) mem)
  | cons b bs ih =>
    obtain ⟨c, cs, rfl⟩ := List.exists_cons_of_ne_nil
      (List.ne_nil_of_mem (mem_of_filter_eq same List.mem_cons_self))
    obtain ⟨leastB, orderedB⟩ := List.pairwise_cons.mp hb
    obtain ⟨leastC, orderedC⟩ := List.pairwise_cons.mp hc
    -- each head is in the other list, so neither key is the greater one
    have le : key b ≤ key c := by
      have mem : c ∈ b :: bs := mem_of_filter_eq (fun k => (same k).symm) List.mem_cons_self
      rcases List.mem_cons.mp mem with rfl | later
      · exact le_rfl
      · exact leastB c later
    have ge : key c ≤ key b := by
      rcases List.mem_cons.mp (mem_of_filter_eq same List.mem_cons_self) with rfl | later
      · exact le_rfl
      · exact leastC b later
    have heads := same (key c)
    rw [List.filter_cons_of_pos (by simpa using le_antisymm le ge),
      List.filter_cons_of_pos (by simp)] at heads
    obtain ⟨rfl, -⟩ := List.cons.inj heads
    refine congrArg (b :: ·) (ih orderedB orderedC fun k => ?_)
    have here := same k
    by_cases tied : key b = k <;> simpa [List.filter_cons, tied] using here

theorem StablySorted.unique {as bs cs : List α} (hb : StablySorted key as bs)
    (hc : StablySorted key as cs) : bs = cs :=
  eq_of_filter_eq hb.ordered hc.ordered fun k => (hb.stable k).trans (hc.stable k).symm

end StablySorted

namespace Text

/-! ### Code points and numbers of a text -/

def codePoints (s : String) : List Nat :=
  s.toList.map Char.toNat

/-- Texts are ordered by their code points. -/
theorem strictMono_codePoints : StrictMono codePoints := by
  intro s t h
  exact List.map_lt (fun _ _ => id) (String.lt_iff_toList_lt.mp h)

/-- The numbers that are written in a text, in decimal digits. -/
def numbersOf (cs : List Char) : List Nat :=
  ((cs.splitOnP (! ·.isDigit)).filter (! ·.isEmpty)).map (Nat.ofDigitChars 10 · 0)

section Numbers

variable {cs rest : List Char} {c : Char}

theorem numbersOf_cons (h : c.isDigit = false) (rest : List Char) :
    numbersOf (c :: rest) = numbersOf rest := by
  simp [numbersOf, List.splitOnP_cons_eq_if_modifyHead, h]

theorem numbersOf_append (h : ∀ c ∈ cs, c.isDigit = false) (rest : List Char) :
    numbersOf (cs ++ rest) = numbersOf rest := by
  induction cs with
  | nil => rfl
  | cons c cs ih =>
    obtain ⟨here, later⟩ := List.forall_mem_cons.mp h
    rw [List.cons_append, numbersOf_cons here, ih later]

/-- A number ends at the next character that is not a digit. -/
theorem numbersOf_repr (n : Nat) (h : c.isDigit = false) (rest : List Char) :
    numbersOf (n.repr.toList ++ c :: rest) = n :: numbersOf rest := by
  have digits : ∀ d ∈ Nat.toDigits 10 n, d.isDigit = true := fun d hd =>
    Nat.isDigit_of_mem_toDigits (by decide) (by decide) hd
  have value : Nat.ofDigitChars 10 (Nat.toDigits 10 n) 0 = n :=
    Nat.ofDigitChars_toDigits (by decide) (by decide)
  rw [Nat.toList_repr, numbersOf, List.splitOnP_append_cons _ _ (by simp [h]),
    List.splitOnP_eq_singleton]
  · simp [numbersOf, Nat.toDigits_ne_nil, value]
  · simpa using digits

/-- A number between two texts without digits. -/
theorem numbersOf_between {lead unit : String} (hlead : lead.toList.any Char.isDigit = false)
    (hunit : unit.toList.any Char.isDigit = false) (ne : unit.toList ≠ []) (n : Nat)
    (rest : List Char) :
    numbersOf ((lead ++ n.repr ++ unit).toList ++ rest) = n :: numbersOf rest := by
  obtain ⟨c, more, hmore⟩ := List.exists_cons_of_ne_nil ne
  rw [hmore] at hunit
  have before : ∀ c ∈ lead.toList, c.isDigit = false := by simpa using hlead
  have behind : ∀ d ∈ c :: more, d.isDigit = false := by simpa using hunit
  obtain ⟨first, others⟩ := List.forall_mem_cons.mp behind
  rw [String.toList_append, String.toList_append, hmore, List.append_assoc, List.append_assoc,
    numbersOf_append before, List.cons_append, numbersOf_repr n first, numbersOf_append others]

end Numbers

end Text

namespace Report

open Text

variable {console : Console} {entries : List Entry} {explain : Bool}

/-! ### The events of a report -/

/-- Every entry can be explained. -/
def Explained (entries : List Entry) : Prop :=
  ∀ e ∈ entries, e.explanation.isSome

theorem explained_of_analyze {registry : Registry} {xs : List Instruction} {found : List Finding}
    (h : analyze registry xs = .ok found) : Explained (found.map .ofFinding) := by
  intro e he
  obtain ⟨f, hf, rfl⟩ := List.mem_map.mp he
  exact Option.isSome_iff_exists.mpr ⟨_, (Rule.reports_of_mem_analyze h hf).explanation⟩

theorem Explained.byRule (h : Explained entries) : Explained (byRule entries) := by
  intro e he
  exact h e (List.mem_mergeSort.mp he)

/-- The note that explains an entry, with its title. -/
def noteOf (e : Entry) : String × Option String :=
  (e.ruleId ++ ": " ++ e.message ++ "\n\n" ++ e.explanation.getD "",
    some ("Explanation for Rule " ++ e.ruleId))

def noteEvent (e : Entry) : Event :=
  .shown .report [.note (noteOf e).1 (noteOf e).2]

theorem explanation_eq (shows : ∀ parts, console.Shows .report parts) {e : Entry}
    (h : e.explanation.isSome) : explanation console e = ⟨[noteEvent e], .ok ()⟩ := by
  obtain ⟨why, hwhy⟩ := Option.isSome_iff_exists.mp h
  simp [explanation, noteEvent, noteOf, hwhy, present_of_shows (shows _)]

theorem showText_eq (shows : ∀ parts, console.Shows .report parts) (ne : entries ≠ [])
    (h : explain = true → Explained entries) :
    showText console explain entries = ⟨
      [.shown .report [.panel (summary entries) (some "[bold]Issues Found[/bold]")],
        .shown .report [table entries]] ++
        if explain then
          .shown .report [.markup "\n[bold]💡 Explanations[/bold]"] :: (byRule entries).map noteEvent
        else [],
      .ok ()⟩ := by
  rw [showText, if_neg (by simpa using ne), present_of_shows (shows _), present_of_shows (shows _)]
  cases explain with
  | false => rfl
  | true =>
    rw [if_pos rfl, if_pos rfl, say, present_of_shows (shows _),
      forEach_of_forall fun e he => explanation_eq shows ((h rfl).byRule e he)]
    rfl

theorem showText_nil (shows : ∀ parts, console.Shows .report parts) (explain : Bool) :
    showText console explain [] = ⟨[.shown .report
      [.markup "\n[bold green]✅ No issues found. Well done![/bold green]"]], .ok ()⟩ :=
  present_of_shows (shows _)

/-- A report whose entries can be explained, if they are to be, is shown to its end in either
format. -/
theorem result_display (shows : ∀ parts, console.Shows .report parts)
    (h : explain = true → Explained entries) (format : Format) :
    (display console format explain entries).result = .ok () := by
  cases format with
  | json => exact result_say (shows _)
  | text =>
    by_cases ne : entries = []
    · rw [ne, display, showText_nil shows]
    · rw [display, showText_eq shows ne h]

/-! ### What is shown -/

/-- Everything that the events show, in order. -/
def displays (events : List Event) : List Display :=
  events.flatMap fun
    | .shown _ parts => parts
    | _ => []

/-- The rows of all tables. -/
def rowsShown (events : List Event) : List (List String) :=
  (displays events).flatMap fun
    | .table _ _ rows => rows
    | _ => []

/-- All notes, with their titles. -/
def notesShown (events : List Event) : List (String × Option String) :=
  (displays events).filterMap fun
    | .note content title => some (content, title)
    | _ => none

/-- The numbers in all panels. -/
def countsShown (events : List Event) : List Nat :=
  (displays events).flatMap fun
    | .panel content _ => numbersOf content.toList
    | _ => []

section Shown

variable (shows : ∀ parts, console.Shows .report parts)
include shows

theorem displays_nil (explain : Bool) :
    displays (display console .text explain []).events
      = [.markup "\n[bold green]✅ No issues found. Well done![/bold green]"] := by
  rw [display, showText_nil shows]
  rfl

theorem displays_of_ne_nil (ne : entries ≠ []) (h : explain = true → Explained entries) :
    displays (display console .text explain entries).events
      = [.panel (summary entries) (some "[bold]Issues Found[/bold]"), table entries] ++
        if explain then
          .markup "\n[bold]💡 Explanations[/bold]" ::
            (byRule entries).map fun e => .note (noteOf e).1 (noteOf e).2
        else [] := by
  rw [display, showText_eq shows ne h]
  cases explain with
  | false => rfl
  | true => simp [displays, noteEvent, List.flatMap_map, ← List.map_eq_flatMap]

theorem rowsShown_display (h : explain = true → Explained entries) :
    rowsShown (display console .text explain entries).events = (byLine entries).map row := by
  by_cases ne : entries = []
  · rw [ne, rowsShown, displays_nil shows]
    simp [byLine]
  · rw [rowsShown, displays_of_ne_nil shows ne h, table]
    cases explain <;> simp [List.flatMap_map]

theorem notesShown_display (h : explain = true → Explained entries) :
    notesShown (display console .text explain entries).events
      = if explain then (byRule entries).map noteOf else [] := by
  by_cases ne : entries = []
  · rw [ne, notesShown, displays_nil shows]
    simp [byRule]
  · rw [notesShown, displays_of_ne_nil shows ne h, table]
    cases explain <;> simp [List.filterMap_map]

theorem countsShown_display (ne : entries ≠ []) (h : explain = true → Explained entries) :
    countsShown (display console .text explain entries).events
      = numbersOf (summary entries).toList := by
  rw [countsShown, displays_of_ne_nil shows ne h, table]
  cases explain <;> simp [List.flatMap_map]

end Shown

theorem numbersOf_summary (entries : List Entry) :
    numbersOf (summary entries).toList
      = [count "warning" entries, count "info" entries, count "error" entries] := by
  have text : (summary entries).toList
      = ("⚠️  [yellow]" ++ (count "warning" entries).repr ++ " warnings[/yellow]\n").toList ++
        (("ℹ️  [blue]" ++ (count "info" entries).repr ++ " info[/blue]\n").toList ++
        (("❌  [red]" ++ (count "error" entries).repr ++ " errors[/red]").toList ++ [])) := by
    rw [List.append_nil, ← String.toList_append, ← String.toList_append, ← String.append_assoc]
    rfl
  rw [text, numbersOf_between rfl rfl (by simp), numbersOf_between rfl rfl (by simp),
    numbersOf_between rfl rfl (by simp)]
  rfl

theorem count_eq_countP (severity : String) (entries : List Entry) :
    count severity entries = entries.countP (·.severity = severity) :=
  List.countP_congr fun e _ => by simp

/-- The entries with one of three texts as severity are counted apart. -/
theorem countP_add_countP_add_countP
    (h : ∀ e ∈ entries, e.severity ∈ ["error", "warning", "info"]) :
    entries.countP (·.severity = "warning") + entries.countP (·.severity = "info") +
      entries.countP (·.severity = "error") = entries.length := by
  induction entries with
  | nil => rfl
  | cons e rest ih =>
    obtain ⟨here, later⟩ := List.forall_mem_cons.mp h
    have step (severity : String) : (e :: rest).countP (·.severity = severity)
        = rest.countP (·.severity = severity) + if e.severity = severity then 1 else 0 := by
      simp [List.countP_cons]
    simp only [List.mem_cons, List.not_mem_nil, or_false] at here
    rw [List.length_cons, ← ih later, step, step, step]
    -- one of the three counts goes up, and only one
    rcases here with same | same | same <;>
      simp only [same, String.reduceEq, if_true, if_false] <;> omega

theorem styled_eq_lookup (severity : String) :
    styled severity = ([("warning", "[yellow]warning[/yellow]"),
      ("error", "[bold red]error[/bold red]"), ("info", "[blue]info[/blue]")].lookup
        severity).getD severity := by
  unfold styled
  split_ifs with warning error info
  · rw [warning]
    rfl
  · rw [error]
    rfl
  · rw [info]
    rfl
  · simp [List.lookup_cons, beq_false_of_ne warning, beq_false_of_ne error, beq_false_of_ne info]

theorem stablySorted_byLine (entries : List Entry) :
    StablySorted Entry.line entries (byLine entries) :=
  stablySorted_mergeSort (fun _ _ => decide_eq_true_iff) entries

theorem stablySorted_byRule (entries : List Entry) :
    StablySorted (fun e => codePoints e.ruleId) entries (byRule entries) := by
  refine stablySorted_mergeSort (fun a b => ?_) entries
  rw [Bool.not_eq_true', decide_eq_false_iff_not, not_lt, strictMono_codePoints.le_iff_le]

end Report

end Dockerfile
