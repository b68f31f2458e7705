import Dockerfile.Proofs.Instruction.Groups

/-!
A text printed anew, with each instruction on a line of its own.

The text of an instruction that was parsed is on one line and closes it (`standsAlone_of_mem_parse`).
So the new text has one logical line for each instruction (`ofText_render`): the text of the
instruction, trimmed. The instructions of the new text are therefore numbered from 1, and they are
the old ones exactly if there was nothing to trim. Only a continuation that starts with a lone
backslash leaves a blank to trim (`strip_of_headed`), and once trimmed the texts stay as they are
(`strip_of_mem_parse_render`). That is why printing the new text once more changes nothing.
-/

namespace Dockerfile

open Text

/-- The text with each instruction of a text on a line of its own. -/
def reprint (content : String) : String :=
  render (parse content)

/-- The instructions, on the lines from the given one on. -/
def renumber (number : Nat) (xs : List Instruction) : List Instruction :=
  (xs.zipIdx number).map fun p => { p.1 with line := p.2 }

variable {x : Instruction} {xs : List Instruction} {content : String}

theorem map_fst_zipIdx {α β : Type} (f : α → β) (number : Nat) (as : List α) :
    (as.zipIdx number).map (fun p => f p.1) = as.map f := by
  nth_rewrite 2 [← List.zipIdx_map_fst number as]
  rw [List.map_map]
  rfl

/-! ### Lines that stand alone -/

namespace Text

theorem OneLine.intercalate {texts : List (List Char)} (h : ∀ t ∈ texts, OneLine t) :
    OneLine ([' '].intercalate texts) := by
  induction texts with
  | nil => exact nofun
  | cons text texts ih =>
    have here : OneLine text := h text List.mem_cons_self
    have later := ih fun t ht => h t (List.mem_cons_of_mem _ ht)
    cases texts with
    | nil => rwa [List.intercalate_singleton]
    | cons next texts =>
      rw [List.intercalate_cons_cons]
      exact here.space.append later

/-- Lines that are not empty are found again between line feeds. -/
theorem linesOf_intercalate {texts : List (List Char)} (one : ∀ t ∈ texts, OneLine t)
    (ne : ∀ t ∈ texts, t ≠ []) : linesOf (['\n'].intercalate texts) = texts := by
  induction texts with
  | nil => rfl
  | cons text texts ih =>
    have here : OneLine text := one text List.mem_cons_self
    cases texts with
    | nil =>
      rw [List.intercalate_singleton, linesOf_of_oneLine here (ne text List.mem_cons_self)]
    | cons next texts =>
      rw [List.intercalate_cons_cons, List.append_assoc, List.singleton_append,
        linesOf_append_lf here, ih (fun t ht => one t (List.mem_cons_of_mem _ ht))
          (fun t ht => ne t (List.mem_cons_of_mem _ ht))]

end Text

namespace LogicalLine

/-- Lines that do not go on are logical lines as they are. -/
theorem gather_of_closes {texts : List (List Char)} (h : ∀ t ∈ texts, Closes t) (number : Nat) :
    gather none number texts = (texts.zipIdx number).map fun p => ⟨p.2, trim p.1⟩ := by
  induction texts generalizing number with
  | nil => rfl
  | cons text texts ih =>
    rw [gather_closes (h text List.mem_cons_self), List.zipIdx_cons, List.map_cons,
      ih fun t ht => h t (List.mem_cons_of_mem _ ht)]
    rfl

/-! ### The texts of groups -/

variable {l : Written} {g : Group} {number : Nat} {physicals : List (List Char)}

theorem oneLine_of_mem_written (hl : l ∈ written number physicals)
    (lines : ∀ p ∈ physicals, OneLine p) : OneLine l.chars := by
  obtain ⟨physical, hmem, heq, -⟩ := exists_of_mem_written hl
  rw [heq]
  exact (lines physical hmem).part (trim_isInfix physical)

theorem oneLine_piece (hl : l ∈ written number physicals) (lines : ∀ p ∈ physicals, OneLine p) :
    OneLine l.piece := by
  have one := oneLine_of_mem_written hl lines
  unfold Written.piece
  split
  · exact one.part ((trim_isInfix _).trans (List.dropLast_prefix _).isInfix)
  · exact one

theorem closed_of_mem_written (hl : l ∈ written number physicals) (ends : l.continues = false) :
    Closed l.chars := by
  obtain ⟨physical, -, heq, ne⟩ := exists_of_mem_written hl
  rw [heq]
  have hlast := List.getLast?_eq_some_getLast ne
  refine Or.inl ⟨_, _, (List.dropLast_append_getLast ne).symm, ?_, ?_⟩
  · exact (trimmed_trim physical).last _ hlast
  · intro backslash
    rw [backslash, ← heq, ← Written.continues_iff, ends] at hlast
    cases hlast

/-- A group ends as its last line does. -/
theorem closed_chars (hg : ∀ l ∈ g.lines, l ∈ written number physicals) : Closed g.chars := by
  have last : Closed g.last.piece := by
    rw [Written.piece_of_not_continues g.ends]
    exact closed_of_mem_written (hg g.last (by simp [Group.lines])) g.ends
  unfold Group.chars Group.lines
  rw [List.map_append, List.map_singleton]
  by_cases single : g.continued.map Written.piece = []
  · rw [single, List.nil_append, List.intercalate_singleton]
    exact last
  · rw [intercalate_concat single, List.append_cons]
    exact last.prepend _

theorem oneLine_chars (hg : ∀ l ∈ g.lines, l ∈ written number physicals)
    (lines : ∀ p ∈ physicals, OneLine p) : OneLine g.chars := by
  apply OneLine.intercalate
  intro t ht
  obtain ⟨l, hl, rfl⟩ := List.mem_map.mp ht
  exact oneLine_piece (hg l hl) lines

end LogicalLine

/-! ### The texts of instructions -/

/-- The text of the instruction is a logical line by itself. -/
structure Instruction.StandsAlone (x : Instruction) : Prop where
  oneLine : OneLine x.text.toList
  closes : Closes x.text.toList

theorem standsAlone_of_mem_parse (hx : x ∈ parse content) : x.StandsAlone := by
  obtain ⟨g, hread, hg⟩ := LogicalLine.exists_group_of_mem_parse hx
  have text : x.text.toList = g.chars := by
    rw [Instruction.text_of_read hread, String.toList_ofList]
  constructor
  · rw [text]
    exact LogicalLine.oneLine_chars hg fun p hp => oneLine_of_mem_linesOf hp
  · rw [text]
    exact (LogicalLine.closed_chars hg).closes

/-- The text of an instruction that was parsed reads as the instruction, at its line or at any
other. -/
theorem read_text_of_mem_parse (hx : x ∈ parse content) (line : Int) :
    Instruction.read line x.text = .ok { x with line := line } := by
  obtain ⟨g, hread, -⟩ := LogicalLine.exists_group_of_mem_parse hx
  obtain ⟨keyword, value, hparts, rfl⟩ := Instruction.read_eq_ok_iff.mp hread
  exact Instruction.read_eq_ok_iff.mpr ⟨keyword, value, hparts, rfl⟩

/-! ### The new text -/

theorem linesOf_render (alone : ∀ x ∈ xs, x.StandsAlone) :
    linesOf (render xs).toList = xs.map fun x => x.text.toList := by
  rw [toList_render]
  apply linesOf_intercalate
  · intro t ht
    obtain ⟨x, hx, rfl⟩ := List.mem_map.mp ht
    exact (alone x hx).oneLine
  · intro t ht
    obtain ⟨x, hx, rfl⟩ := List.mem_map.mp ht
    exact (alone x hx).closes.ne_nil

theorem closes_of_mem_render (alone : ∀ x ∈ xs, x.StandsAlone) :
    ∀ t ∈ linesOf (render xs).toList, Closes t := by
  intro t ht
  rw [linesOf_render alone] at ht
  obtain ⟨x, hx, rfl⟩ := List.mem_map.mp ht
  exact (alone x hx).closes

theorem ofText_render (alone : ∀ x ∈ xs, x.StandsAlone) :
    LogicalLine.ofText (render xs)
      = (xs.zipIdx 1).map fun p => ⟨p.2, trim p.1.text.toList⟩ := by
  unfold LogicalLine.ofText
  rw [LogicalLine.gather_of_closes (closes_of_mem_render alone), linesOf_render alone,
    List.zipIdx_map, List.map_map]
  rfl

/-- A view of instructions that is a view of the lines they are read from. -/
theorem map_parse_eq {α : Type} {view : Instruction → α} {seen : LogicalLine → α}
    (h : ∀ l x, l.read = .ok x → view x = seen l) (content : String) :
    (parse content).map view = (LogicalLine.ofText content).map seen := by
  have read := LogicalLine.map_read_ofText content
  rw [← List.forall₂_eq_eq_eq, List.forall₂_map_left_iff, List.forall₂_map_right_iff] at read
  rw [eq_comm, ← List.forall₂_eq_eq_eq, List.forall₂_map_left_iff, List.forall₂_map_right_iff]
  exact read.imp fun l x hx => (h l x hx).symm

theorem map_text_parse_render (alone : ∀ x ∈ xs, x.StandsAlone) :
    (parse (render xs)).map Instruction.text = xs.map fun x => strip x.text := by
  rw [map_parse_eq (fun _ _ => Instruction.text_of_read), ofText_render alone, List.map_map,
    ← map_fst_zipIdx (fun x => strip x.text) 1 xs]
  simp only [Function.comp_def, strip]

theorem length_parse_render (alone : ∀ x ∈ xs, x.StandsAlone) :
    (parse (render xs)).length = xs.length := by
  simpa using congrArg List.length (map_text_parse_render alone)

/-- Read again, the texts have been trimmed. -/
theorem strip_of_mem_parse_render (alone : ∀ x ∈ xs, x.StandsAlone) :
    ∀ z ∈ parse (render xs), strip z.text = z.text := by
  intro z hz
  have hmem : z.text ∈ xs.map fun x => strip x.text := by
    rw [← map_text_parse_render alone]
    exact List.mem_map_of_mem hz
  obtain ⟨x, -, heq⟩ := List.mem_map.mp hmem
  rw [← heq, strip, toList_strip, trim_eq_self (trimmed_trim _), strip]

theorem map_line_parse_render (alone : ∀ x ∈ xs, x.StandsAlone) :
    (parse (render xs)).map Instruction.line
      = (List.range' 1 (parse (render xs)).length).map Nat.cast := by
  rw [map_parse_eq (fun _ _ => Instruction.line_of_read), ofText_render alone, List.map_map,
    length_parse_render alone, ← List.zipIdx_map_snd, List.map_map]
  rfl

/-! ### Numbering -/

theorem renumber_eq_self {number : Nat}
    (h : xs.map Instruction.line = (List.range' number xs.length).map Nat.cast) :
    renumber number xs = xs := by
  induction xs generalizing number with
  | nil => rfl
  | cons x xs ih =>
    rw [List.length_cons, List.range'_succ, List.map_cons, List.map_cons, List.cons_eq_cons] at h
    obtain ⟨here, later⟩ := h
    change { x with line := (number : Int) } :: renumber (number + 1) xs = x :: xs
    rw [ih later, ← here]

theorem map_text_renumber (number : Nat) (xs : List Instruction) :
    (renumber number xs).map Instruction.text = xs.map Instruction.text := by
  unfold renumber
  rw [List.map_map]
  exact map_fst_zipIdx Instruction.text number xs

/-! ### Printing a text anew -/

theorem parse_reprint_of_strip (h : ∀ x ∈ parse content, strip x.text = x.text) :
    parse (reprint content) = renumber 1 (parse content) := by
  have alone : ∀ x ∈ parse content, x.StandsAlone := fun x hx => standsAlone_of_mem_parse hx
  have lines : LogicalLine.ofText (reprint content)
      = ((parse content).zipIdx 1).map fun p => ⟨p.2, trim p.1.text.toList⟩ :=
    ofText_render alone
  rw [parse, lines, List.filterMap_map, renumber, ← List.filterMap_eq_map']
  refine List.filterMap_congr fun p hp => ?_
  have hx : p.1 ∈ parse content := List.fst_mem_of_mem_zipIdx hp
  have same : String.ofList (trim p.1.text.toList) = p.1.text := h p.1 hx
  simp only [Function.comp_apply, LogicalLine.read, same, read_text_of_mem_parse hx]
  rfl

theorem strip_of_parse_reprint (h : parse (reprint content) = renumber 1 (parse content)) :
    ∀ x ∈ parse content, strip x.text = x.text := by
  have alone : ∀ x ∈ parse content, x.StandsAlone := fun x hx => standsAlone_of_mem_parse hx
  have texts := map_text_parse_render alone
  rw [← reprint, h, map_text_renumber] at texts
  intro x hx
  exact (List.map_inj_left.mp texts x hx).symm

theorem strip_of_headed (headed : LogicalLine.Headed false (linesOf content.toList)) :
    ∀ x ∈ parse content, strip x.text = x.text := by
  intro x hx
  obtain ⟨l, hl, hread⟩ := exists_logicalLine_of_mem_parse hx
  have plain : Plain l.chars := LogicalLine.plain_of_mem_ofText headed hl
  rw [Instruction.text_of_read hread, strip, String.toList_ofList, trim_eq_self plain.trimmed]

/-- Printing a text anew reaches a fixed point at once. The instructions stay the same but for their
lines, which become 1, 2, …, exactly if no text of theirs has a blank at an end, and so in particular
if no continuation starts with a lone backslash. -/
theorem parse_reprint (content : String) :
    parse (reprint (reprint content)) = parse (reprint content) ∧
      (LogicalLine.Headed false (linesOf content.toList) →
        parse (reprint content) = renumber 1 (parse content)) ∧
      (parse (reprint content) = renumber 1 (parse content) ↔
        ∀ x ∈ parse content, strip x.text = x.text) := by
  have alone : ∀ x ∈ parse content, x.StandsAlone := fun x hx => standsAlone_of_mem_parse hx
  refine ⟨?_, ?_, ?_⟩
  · have trimmed : ∀ z ∈ parse (reprint content), strip z.text = z.text :=
      strip_of_mem_parse_render alone
    have numbered : renumber 1 (parse (reprint content)) = parse (reprint content) :=
      renumber_eq_self (map_line_parse_render alone)
    rw [parse_reprint_of_strip trimmed, numbered]
  · intro headed
    exact parse_reprint_of_strip (strip_of_headed headed)
  · exact ⟨strip_of_parse_reprint, parse_reprint_of_strip⟩

/-- Blank lines, also one within a continuation, and a comment: printed anew, three lines. -/
theorem parse_reprint_blankLines :
    let content := "\n# a\nRUN b \\\n\n  c\nCMD"
    LogicalLine.Headed false (linesOf content.toList) ∧
      (parse content).map Instruction.line = [2, 3, 6] ∧
      (parse (reprint content)).map Instruction.line = [1, 2, 3] ∧
      parse (reprint content) = renumber 1 (parse content) := by
  intro content
  refine ⟨by decide +kernel, by decide +kernel, by decide +kernel, ?_⟩
  exact (parse_reprint content).2.1 (by decide +kernel)

-- After a lone backslash the line keeps a blank before its `#`, so it is no comment yet.
example :
    (parse "\\\n#a").map Instruction.keyword = [.unknown] ∧
      (parse (reprint "\\\n#a")).map Instruction.keyword = [.comment] := by
  decide +kernel

end Dockerfile
