import Mathlib.Data.List.DropRight
import Dockerfile.Proofs.Instruction.Lines
import Dockerfile.Proofs.Instruction.Reading
import Dockerfile.Proofs.Related
import Dockerfile.Proofs.Text.Words

/-!
Logical lines as groups of physical ones.

The written lines of a text are those that are not blank, trimmed and with their numbers. There is
one way to cut them into groups, each of them some lines that go on and a last one that does not, so
that only lines that go on are left over (`Cut`, `Cut.unique`). `gather` runs through these groups:
what it has pending before a line are the lines that the current group has so far
(`exists_cut_gather`).

* `map_read_groups` — the instructions of a text are its groups, read one by one, and reading one
  never fails.
* `words_parse` — the instructions hold the words of the text in their order, except for those of
  the lines left over.
-/

namespace Dockerfile.LogicalLine

open Text

/-! ### Written lines -/

/-- A physical line that is not blank: its number, and its characters trimmed. -/
structure Written where
  number : Nat
  chars : List Char
  deriving DecidableEq, Repr

namespace Written

/-- The line ends in a backslash. -/
def continues (l : Written) : Bool :=
  l.chars.getLast? == some '\\'

/-- What the line adds to its logical line. -/
def piece (l : Written) : List Char :=
  if l.continues then trim l.chars.dropLast else l.chars

variable {l : Written}

theorem continues_iff : l.continues = true ↔ l.chars.getLast? = some '\\' := by
  rw [continues, beq_iff_eq]

theorem continues_of_closes {physical : List Char} (h : Closes physical) (number : Nat) :
    continues ⟨number, trim physical⟩ = false := by
  obtain ⟨c, hc, ne⟩ := h
  rw [Bool.eq_false_iff, Ne, continues_iff, Option.mem_def.mp hc]
  simpa using ne

theorem piece_of_continues (h : l.continues = true) : l.piece = trim l.chars.dropLast :=
  if_pos h

theorem piece_of_not_continues (h : l.continues = false) : l.piece = l.chars :=
  if_neg (by simp [h])

theorem wordsOf_piece (l : Written) : wordsOf l.piece = wordsOf (withoutBackslash l.chars) := by
  rw [piece, withoutBackslash]
  by_cases h : l.chars.getLast? = some '\\'
  · rw [if_pos h, if_pos (continues_iff.mpr h), wordsOf_trim]
  · rw [if_neg h, if_neg (mt continues_iff.mp h)]

end Written

/-- The written lines among physical ones, the first of which has the given number. -/
def written (number : Nat) (physicals : List (List Char)) : List Written :=
  ((physicals.zipIdx number).map fun (physical, n) => ⟨n, trim physical⟩).filter
    fun l => !l.chars.isEmpty

section Written

variable {number : Nat} {physical : List Char} {physicals : List (List Char)} {l : Written}

theorem written_blank (h : trim physical = []) :
    written number (physical :: physicals) = written (number + 1) physicals := by
  simp [written, h]

theorem written_cons (h : trim physical ≠ []) :
    written number (physical :: physicals)
      = ⟨number, trim physical⟩ :: written (number + 1) physicals := by
  simp [written, h]

theorem exists_of_mem_written (h : l ∈ written number physicals) :
    ∃ physical ∈ physicals, l.chars = trim physical ∧ trim physical ≠ [] := by
  obtain ⟨hl, full⟩ := List.mem_filter.mp h
  obtain ⟨⟨physical, n⟩, hmem, rfl⟩ := List.mem_map.mp hl
  exact ⟨physical, List.fst_mem_of_mem_zipIdx hmem, rfl, by simpa using full⟩

theorem exists_not_blank_of_mem_written (h : l ∈ written number physicals) :
    ∃ c ∈ l.chars, isBlank c = false := by
  obtain ⟨physical, -, heq, ne⟩ := exists_of_mem_written h
  obtain ⟨c, rest, htrim⟩ := List.exists_cons_of_ne_nil ne
  rw [heq, htrim]
  exact ⟨c, List.mem_cons_self, (trimmed_trim physical).head c (by simp [htrim])⟩

end Written

/-! ### Groups -/

/-- Written lines that make up a logical line: some that go on, and a last one that does not. -/
@[ext]
structure Group where
  continued : List Written
  last : Written
  goesOn : ∀ l ∈ continued, l.continues = true
  ends : last.continues = false

namespace Group

def lines (g : Group) : List Written :=
  g.continued ++ [g.last]

/-- The number of the first line. -/
def number (g : Group) : Nat :=
  (g.continued.headD g.last).number

def chars (g : Group) : List Char :=
  [' '].intercalate (g.lines.map Written.piece)

def logical (g : Group) : LogicalLine :=
  ⟨g.number, g.chars⟩

/-- The instruction that the group writes. -/
def read (g : Group) : Except Fault Instruction :=
  Instruction.read g.number (String.ofList g.chars)

theorem takeWhile_lines (g : Group) (more : List Written) :
    (g.lines ++ more).takeWhile Written.continues = g.continued := by
  rw [lines, List.append_assoc, List.takeWhile_append_of_pos g.goesOn, List.singleton_append,
    List.takeWhile_cons_of_neg (by simp [g.ends]), List.append_nil]

theorem dropWhile_lines (g : Group) (more : List Written) :
    (g.lines ++ more).dropWhile Written.continues = g.last :: more := by
  rw [lines, List.append_assoc, List.dropWhile_append_of_pos g.goesOn, List.singleton_append,
    List.dropWhile_cons_of_neg (by simp [g.ends])]

theorem wordsOf_chars (g : Group) :
    wordsOf g.chars = g.lines.flatMap fun l => wordsOf l.piece := by
  rw [chars, wordsOf_intercalate, List.flatMap_map]

/-- A group whose last line is not blank writes an instruction. -/
theorem exists_read (g : Group) (h : ∃ c ∈ g.last.chars, isBlank c = false) :
    ∃ x, g.read = .ok x := by
  apply Instruction.exists_read
  rw [String.toList_ofList, ← wordsOf_ne_nil_iff, wordsOf_chars]
  intro none
  have last := List.flatMap_eq_nil_iff.mp none g.last (by simp [lines])
  rw [Written.piece_of_not_continues g.ends] at last
  exact wordsOf_ne_nil_iff.mpr h last

end Group

/-- The lines are those of the groups, one after another, and then lines that all go on. -/
structure Cut (lines : List Written) (groups : List Group) (rest : List Written) : Prop where
  lines_eq : lines = groups.flatMap Group.lines ++ rest
  goesOn : ∀ l ∈ rest, l.continues = true

namespace Cut

variable {lines rest rest' : List Written} {groups groups' : List Group} {g : Group}

theorem dropWhile_eq_nil (h : Cut lines [] rest) : lines.dropWhile Written.continues = [] := by
  rw [h.lines_eq, List.dropWhile_eq_nil_iff]
  exact h.goesOn

theorem cons (g : Group) (h : Cut lines groups rest) :
    Cut (g.lines ++ lines) (g :: groups) rest where
  lines_eq := by rw [h.lines_eq, List.flatMap_cons, List.append_assoc]
  goesOn := h.goesOn

/-- The first group ends at the first line that does not go on. -/
theorem first (h : Cut lines (g :: groups) rest) :
    lines.takeWhile Written.continues = g.continued ∧
      ∃ more, lines.dropWhile Written.continues = g.last :: more ∧ Cut more groups rest := by
  have heq := h.lines_eq
  rw [List.flatMap_cons, List.append_assoc] at heq
  rw [heq]
  exact ⟨g.takeWhile_lines _, _, g.dropWhile_lines _, rfl, h.goesOn⟩

/-- There is one way to cut the lines. -/
theorem unique (h : Cut lines groups rest) (h' : Cut lines groups' rest') :
    groups' = groups ∧ rest' = rest := by
  induction groups generalizing lines groups' with
  | nil =>
    cases groups' with
    | nil => exact ⟨rfl, by simpa using h'.lines_eq.symm.trans h.lines_eq⟩
    | cons g' groups' =>
      obtain ⟨-, more, hdrop, -⟩ := h'.first
      rw [h.dropWhile_eq_nil] at hdrop
      cases hdrop
  | cons g groups ih =>
    obtain ⟨htake, more, hdrop, later⟩ := h.first
    cases groups' with
    | nil =>
      rw [h'.dropWhile_eq_nil] at hdrop
      cases hdrop
    | cons g' groups' =>
      obtain ⟨htake', more', hdrop', later'⟩ := h'.first
      obtain ⟨hlast, rfl⟩ := List.cons_eq_cons.mp (hdrop'.symm.trans hdrop)
      obtain ⟨hgroups, hrest⟩ := ih later later'
      have same : g' = g := Group.ext (htake'.symm.trans htake) hlast
      rw [same, hgroups]
      exact ⟨rfl, hrest⟩

end Cut

/-! ### Unfinished lines -/

/-- The lines at the end that no line completes. -/
def unfinished (lines : List Written) : List Written :=
  lines.rtakeWhile Written.continues

section Unfinished

variable {lines rest : List Written} {groups : List Group} {l : Written}

theorem unfinished_eq_self (h : ∀ l ∈ lines, l.continues = true) : unfinished lines = lines :=
  List.rtakeWhile_eq_self_iff.mpr h

theorem continues_of_mem_unfinished (h : l ∈ unfinished lines) : l.continues = true :=
  List.mem_rtakeWhile_imp h

/-- They come after the last line that does not go on. -/
theorem unfinished_append_cons (h : l.continues = false) (before after : List Written) :
    unfinished (before ++ l :: after) = unfinished after := by
  rw [unfinished, unfinished]
  induction after using List.reverseRecOn with
  | nil => rw [List.rtakeWhile_concat_neg _ _ _ (by simp [h]), List.rtakeWhile_nil]
  | append_singleton after last ih =>
    rw [← List.cons_append, ← List.append_assoc]
    by_cases hlast : last.continues = true
    · rw [List.rtakeWhile_concat_pos _ _ _ hlast, List.rtakeWhile_concat_pos _ _ _ hlast, ih]
    · rw [List.rtakeWhile_concat_neg _ _ _ hlast, List.rtakeWhile_concat_neg _ _ _ hlast]

theorem Cut.rest_eq (h : Cut lines groups rest) : rest = unfinished lines := by
  rw [h.lines_eq]
  rcases List.eq_nil_or_concat' groups with rfl | ⟨before, g, rfl⟩
  · exact (unfinished_eq_self h.goesOn).symm
  · rw [List.flatMap_append, List.flatMap_singleton, Group.lines, ← List.append_assoc,
      List.append_assoc, List.singleton_append, unfinished_append_cons g.ends,
      unfinished_eq_self h.goesOn]

end Unfinished

/-! ### Gathering -/

/-- What is pending when these lines have been read. -/
def Pending.ofLines : List Written → Option Pending
  | [] => none
  | l :: opened => some ⟨l.number, (l :: opened).map Written.piece⟩

theorem Pending.push_ofLines (opened : List Written) (l : Written) :
    some (Pending.push l.number l.piece (Pending.ofLines opened))
      = Pending.ofLines (opened ++ [l]) := by
  cases opened with
  | nil => rfl
  | cons first opened => simp [Pending.ofLines, Pending.push]

theorem Pending.complete_ofLines (g : Group) :
    Pending.complete g.last.number g.last.chars (Pending.ofLines g.continued) = g.logical := by
  rw [← Written.piece_of_not_continues g.ends, Group.logical, Group.number, Group.chars,
    Group.lines]
  cases g.continued with
  | nil => simp [Pending.ofLines, Pending.complete]
  | cons first opened => simp [Pending.ofLines, Pending.complete]

section Gather

variable {number : Nat} {physical : List Char} {physicals : List (List Char)}
  {opened : List Written}

theorem goesOn_concat (goesOn : ∀ l ∈ opened, l.continues = true)
    (h : (trim physical).getLast? = some '\\') (number : Nat) :
    ∀ l ∈ opened ++ [⟨number, trim physical⟩], l.continues = true := by
  intro l hl
  rcases List.mem_append.mp hl with hl | hl
  · exact goesOn l hl
  · rw [List.mem_singleton.mp hl]
    exact Written.continues_iff.mpr h

theorem gather_ofLines_continues (h : (trim physical).getLast? = some '\\')
    (opened : List Written) :
    gather (Pending.ofLines opened) number (physical :: physicals)
      = gather (Pending.ofLines (opened ++ [⟨number, trim physical⟩])) (number + 1) physicals := by
  have continues : Written.continues ⟨number, trim physical⟩ = true := Written.continues_iff.mpr h
  rw [gather_continues h, ← Pending.push_ofLines, Written.piece_of_continues continues]

theorem gather_ofLines_closes (h : Closes physical) (g : Group)
    (last : g.last = ⟨number, trim physical⟩) :
    gather (Pending.ofLines g.continued) number (physical :: physicals)
      = g.logical :: gather (Pending.ofLines []) (number + 1) physicals := by
  rw [gather_closes h, ← Pending.complete_ofLines, last]
  rfl

/-- With the lines of the current group so far pending, what is gathered are the groups that the
lines are cut into. -/
theorem exists_cut_gather (goesOn : ∀ l ∈ opened, l.continues = true) (number : Nat)
    (physicals : List (List Char)) :
    ∃ groups rest, Cut (opened ++ written number physicals) groups rest ∧
      gather (Pending.ofLines opened) number physicals = groups.map Group.logical := by
  induction physicals generalizing opened number with
  | nil => exact ⟨[], opened, ⟨by simp [written], goesOn⟩, rfl⟩
  | cons physical physicals ih =>
    rcases trim_cases physical with hblank | hlast | hclose
    · rw [gather_blank hblank, written_blank hblank]
      exact ih goesOn (number + 1)
    · rw [gather_ofLines_continues hlast, written_cons (trim_ne_nil_of_getLast? hlast),
        List.append_cons]
      exact ih (goesOn_concat goesOn hlast number) (number + 1)
    · have ends := Written.continues_of_closes hclose number
      have nothing : ∀ l ∈ ([] : List Written), l.continues = true := by simp
      obtain ⟨groups, rest, cut, later⟩ := ih nothing (number + 1)
      refine ⟨⟨opened, ⟨number, trim physical⟩, goesOn, ends⟩ :: groups, rest, ?_, ?_⟩
      · rw [written_cons hclose.trim_ne_nil, List.append_cons]
        exact cut.cons ⟨opened, ⟨number, trim physical⟩, goesOn, ends⟩
      · rw [List.map_cons, ← later]
        exact gather_ofLines_closes hclose ⟨opened, ⟨number, trim physical⟩, goesOn, ends⟩ rfl

end Gather

/-! ### Reading the groups -/

theorem Cut.exists_read {physicals : List (List Char)} {number : Nat} {groups : List Group}
    {rest : List Written} (h : Cut (written number physicals) groups rest) {g : Group}
    (hg : g ∈ groups) : ∃ x, g.read = .ok x := by
  have last : g.last ∈ written number physicals := by
    rw [h.lines_eq]
    exact List.mem_append_left _ (List.mem_flatMap.mpr ⟨g, hg, by simp [Group.lines]⟩)
  exact g.exists_read (exists_not_blank_of_mem_written last)

theorem exists_cut_ofText (content : String) :
    ∃ groups rest, Cut (written 1 (linesOf content.toList)) groups rest ∧
      ofText content = groups.map Group.logical := by
  have nothing : ∀ l ∈ ([] : List Written), l.continues = true := by simp
  exact exists_cut_gather nothing 1 (linesOf content.toList)

/-- Each logical line of a text writes one of its instructions. -/
theorem map_read_ofText (content : String) :
    (ofText content).map read = (parse content).map Except.ok := by
  obtain ⟨groups, rest, cut, hlines⟩ := exists_cut_ofText content
  refine map_eq_map_ok fun l hl => ?_
  rw [hlines] at hl
  obtain ⟨g, hg, rfl⟩ := List.mem_map.mp hl
  exact cut.exists_read hg

theorem exists_cut_parse (content : String) :
    ∃ groups rest, Cut (written 1 (linesOf content.toList)) groups rest ∧
      groups.map Group.read = (parse content).map Except.ok := by
  obtain ⟨groups, rest, cut, hlines⟩ := exists_cut_ofText content
  refine ⟨groups, rest, cut, ?_⟩
  rw [← map_read_ofText, hlines, List.map_map]
  rfl

/-- An instruction of a text is written by a group of its lines. -/
theorem exists_group_of_mem_parse {content : String} {x : Instruction} (h : x ∈ parse content) :
    ∃ g : Group, g.read = .ok x ∧ ∀ l ∈ g.lines, l ∈ written 1 (linesOf content.toList) := by
  obtain ⟨groups, rest, cut, read⟩ := exists_cut_parse content
  have hx : Except.ok x ∈ groups.map Group.read := by
    rw [read]
    exact List.mem_map_of_mem h
  obtain ⟨g, hg, hread⟩ := List.mem_map.mp hx
  refine ⟨g, hread, fun l hl => ?_⟩
  rw [cut.lines_eq]
  exact List.mem_append_left _ (List.mem_flatMap.mpr ⟨g, hg, hl⟩)

/-- The logical lines of a text are read without a fault, and give its instructions. The written
lines of the text fall in exactly one way into groups and a rest that nothing completes. Each group
writes an instruction, and these are the instructions of the text, too. -/
theorem map_read_groups (content : String) :
    (ofText content).map read = (parse content).map Except.ok ∧
      ∃ groups rest, Cut (written 1 (linesOf content.toList)) groups rest ∧
        (∀ groups' rest', Cut (written 1 (linesOf content.toList)) groups' rest' →
          groups' = groups ∧ rest' = rest) ∧
        groups.map Group.read = (parse content).map Except.ok := by
  obtain ⟨groups, rest, cut, written⟩ := exists_cut_parse content
  exact ⟨map_read_ofText content, groups, rest, cut, fun groups' rest' cut' => cut.unique cut',
    written⟩

/-! ### Words -/

/-- The words of a physical line, without the backslash that it may end in. -/
def lineWords (physical : List Char) : List (List Char) :=
  wordsOf (withoutBackslash (trim physical))

theorem flatMap_wordsOf_written (number : Nat) (physicals : List (List Char)) :
    (written number physicals).flatMap (fun l => wordsOf l.piece)
      = physicals.flatMap lineWords := by
  induction physicals generalizing number with
  | nil => rfl
  | cons physical physicals ih =>
    by_cases blank : trim physical = []
    · have none : lineWords physical = [] := by
        rw [lineWords, blank]
        rfl
      rw [written_blank blank, ih, List.flatMap_cons, none, List.nil_append]
    · rw [written_cons blank, List.flatMap_cons, List.flatMap_cons, ih, Written.wordsOf_piece,
        lineWords]

theorem map_text_of_read {groups : List Group} {xs : List Instruction}
    (h : groups.map Group.read = xs.map Except.ok) :
    xs.map Instruction.text = groups.map fun g => String.ofList g.chars := by
  induction groups generalizing xs with
  | nil => rw [List.map_eq_nil_iff.mp h.symm, List.map_nil, List.map_nil]
  | cons g groups ih =>
    obtain ⟨x, xs, rfl, here, later⟩ := List.map_eq_cons_iff.mp h.symm
    rw [List.map_cons, List.map_cons, Instruction.text_of_read here.symm, ih later.symm]

/-- The instructions that are read from groups hold the words of their lines. -/
theorem flatMap_wordsOf_text {groups : List Group} {xs : List Instruction}
    (h : groups.map Group.read = xs.map Except.ok) :
    xs.flatMap (fun x => wordsOf x.text.toList)
      = (groups.flatMap Group.lines).flatMap fun l => wordsOf l.piece := by
  calc xs.flatMap (fun x => wordsOf x.text.toList)
      = (xs.map Instruction.text).flatMap fun s => wordsOf s.toList := by rw [List.flatMap_map]
    _ = groups.flatMap fun g => wordsOf g.chars := by
        rw [map_text_of_read h, List.flatMap_map]
        simp only [String.toList_ofList]
    _ = (groups.flatMap Group.lines).flatMap fun l => wordsOf l.piece := by
        rw [List.flatMap_assoc]
        simp only [Group.wordsOf_chars]

/-- A line that goes on has no words exactly if it is a lone backslash. -/
theorem wordsOf_piece_eq_nil_iff {l : Written} {number : Nat} {physicals : List (List Char)}
    (hl : l ∈ written number physicals) (continues : l.continues = true) :
    wordsOf l.piece = [] ↔ l.chars = ['\\'] := by
  obtain ⟨physical, -, heq, -⟩ := exists_of_mem_written hl
  rw [Written.continues_iff, heq] at continues
  rw [Written.piece_of_continues (Written.continues_iff.mpr (heq ▸ continues)), heq]
  constructor
  · intro none
    by_contra alone
    obtain ⟨c, hc, written⟩ := exists_head_piece continues alone
    have blank := wordsOf_eq_nil_iff.mp none c (List.mem_of_mem_head? hc)
    cases written.symm.trans blank
  · intro alone
    rw [alone]
    rfl

/-- The words of the instructions of a text. -/
def keptWords (content : String) : List (List Char) :=
  (parse content).flatMap fun x => wordsOf x.text.toList

/-- The words of all lines of a text. -/
def allWords (content : String) : List (List Char) :=
  (linesOf content.toList).flatMap lineWords

/-- The lines at the end of a text that go on and that no line completes. -/
def leftOver (content : String) : List Written :=
  unfinished (written 1 (linesOf content.toList))

theorem keptWords_append (content : String) :
    keptWords content ++ (leftOver content).flatMap (fun l => wordsOf l.piece)
      = allWords content := by
  obtain ⟨groups, rest, cut, read⟩ := exists_cut_parse content
  calc keptWords content ++ (leftOver content).flatMap (fun l => wordsOf l.piece)
      = (groups.flatMap Group.lines ++ rest).flatMap fun l => wordsOf l.piece := by
        rw [List.flatMap_append, ← flatMap_wordsOf_text read, cut.rest_eq, keptWords, leftOver]
    _ = allWords content := by rw [← cut.lines_eq, flatMap_wordsOf_written, allWords]

/-- The instructions of a text hold its words in their order. Only the words of the lines that are
left over at its end are missing, so nothing is lost exactly if each of those is a lone
backslash. -/
theorem words_parse (content : String) :
    keptWords content ++ (leftOver content).flatMap (fun l => wordsOf l.piece)
        = allWords content ∧
      (keptWords content = allWords content ↔ ∀ l ∈ leftOver content, l.chars = ['\\']) := by
  refine ⟨keptWords_append content, ?_⟩
  have lone : ∀ l ∈ leftOver content, (wordsOf l.piece = [] ↔ l.chars = ['\\']) := by
    intro l hl
    exact wordsOf_piece_eq_nil_iff ((List.rtakeWhile_suffix _ _).subset hl)
      (continues_of_mem_unfinished hl)
  rw [← keptWords_append, List.self_eq_append_right, List.flatMap_eq_nil_iff]
  exact forall₂_congr lone

/-- A command that the end of the text leaves unfinished, and that is lost. -/
theorem words_parse_unfinished :
    let content := "FROM alpine:3.19\nRUN echo done \\"
    keptWords content ≠ allWords content ∧
      keptWords content = ["FROM".toList, "alpine:3.19".toList] ∧
      allWords content = keptWords content ++ ["RUN".toList, "echo".toList, "done".toList] := by
  decide +kernel

end Dockerfile.LogicalLine
