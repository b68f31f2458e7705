import Dockerfile.Proofs.Instruction.FromWords
import Dockerfile.Proofs.Instruction.Reprint
import Dockerfile.Proofs.Rule.Places

/-!
What the instructions of a text are like.

A logical line starts with the piece of the physical line that it is numbered by
(`LogicalLine.Group.first_isPrefix`) and ends as its last line does, so line, text and value of an
instruction are tied to the lines of the text (`Instruction.WellFormed`).
-/

namespace Dockerfile

open Text

namespace LogicalLine

variable {l : Written} {number : Nat} {physicals : List (List Char)} {physical : List Char}

/-- A written line stands in the text at its number. -/
theorem exists_getElem?_of_mem_written (h : l ∈ written number physicals) :
    ∃ physical, physicals[l.number - number]? = some physical ∧ l.chars = trim physical := by
  obtain ⟨⟨physical, n⟩, hmem, rfl⟩ := List.mem_map.mp (List.mem_filter.mp h).1
  exact ⟨physical, (List.mk_mem_zipIdx_iff_le_and_getElem?_sub.mp hmem).2, rfl⟩

theorem Written.piece_eq (h : l.chars = trim physical) :
    l.piece = trim (withoutBackslash (trim physical)) := by
  rw [piece, withoutBackslash, h]
  by_cases continues : (trim physical).getLast? = some '\\'
  · rw [if_pos continues, if_pos (continues_iff.mpr (h ▸ continues))]
  · rw [if_neg continues, if_neg (fun goesOn => continues (h ▸ continues_iff.mp goesOn)),
      trim_eq_self (trimmed_trim physical)]

namespace Group

/-- The line that the group starts with. -/
def first (g : Group) : Written :=
  g.continued.headD g.last

theorem first_mem_lines (g : Group) : g.first ∈ g.lines := by
  rw [first, lines]
  cases g.continued <;> simp

theorem first_isPrefix (g : Group) : g.first.piece <+: g.chars := by
  rw [first, chars, lines]
  cases g.continued with
  | nil => simp
  | cons l more =>
    rw [List.headD_cons, List.cons_append, List.map_cons,
      List.intercalate_cons_of_ne_nil (by simp), List.append_assoc]
    exact List.prefix_append _ _

end Group

end LogicalLine

namespace Instruction

/-- The instruction is one of those of a text with these physical lines: it is numbered by one of
them and starts with its piece, it stands on one line and has no blank around its value, its text
ends in a character other than a blank and a backslash, and only a FROM has a base image. -/
structure WellFormed (physicals : List (List Char)) (x : Instruction) : Prop where
  line : 1 ≤ x.line ∧ x.line ≤ physicals.length
  start : ∃ physical, physicals[x.line.toNat - 1]? = some physical ∧
    trim (withoutBackslash (trim physical)) <+: x.text.toList
  text : OneLine x.text.toList ∧ ∃ c ∈ x.text.toList.getLast?, isBlank c = false ∧ c ≠ '\\'
  value : OneLine x.value.toList ∧ Trimmed x.value.toList
  base : x.keyword ≠ .fromImage → x.image = none ∧ x.tag = none ∧ x.stage = none

variable {content : String} {x : Instruction}

theorem exists_start_of_mem_parse (h : x ∈ parse content) :
    ∃ physical, (linesOf content.toList)[x.line.toNat - 1]? = some physical ∧
      trim (withoutBackslash (trim physical)) <+: x.text.toList := by
  obtain ⟨g, read, hlines⟩ := LogicalLine.exists_group_of_mem_parse h
  obtain ⟨physical, place, trimmed⟩ :=
    LogicalLine.exists_getElem?_of_mem_written (hlines g.first g.first_mem_lines)
  refine ⟨physical, ?_, ?_⟩
  · rw [line_of_read read]
    exact place
  · rw [text_of_read read, String.toList_ofList, ← LogicalLine.Written.piece_eq trimmed]
    exact g.first_isPrefix

/-- The text of an instruction ends as the last of its lines does. -/
theorem exists_last_of_mem_parse (h : x ∈ parse content) :
    ∃ c ∈ x.text.toList.getLast?, isBlank c = false ∧ c ≠ '\\' := by
  obtain ⟨l, hl, hread⟩ := exists_logicalLine_of_mem_parse h
  have last := LogicalLine.last_of_mem_gather hl
  obtain ⟨c, hc, ne⟩ := (standsAlone_of_mem_parse h).closes
  rw [text_of_read hread, String.toList_ofList] at hc ⊢
  have hlast : l.chars.getLast? = some c := by
    obtain ⟨lead, heq⟩ := List.dropWhile_suffix isBlank (l := l.chars)
    rw [trim_eq_dropWhile last] at hc
    rw [← heq, List.getLast?_append, Option.mem_def.mp hc, Option.some_or]
  exact ⟨c, hlast, last c hlast, ne⟩

theorem value_of_mem_parse (h : x ∈ parse content) :
    OneLine x.value.toList ∧ Trimmed x.value.toList := by
  have one := (standsAlone_of_mem_parse h).oneLine
  obtain ⟨l, hl, hread⟩ := exists_logicalLine_of_mem_parse h
  rw [text_of_read hread, String.toList_ofList] at one
  obtain ⟨keyword, value, hparts, rfl⟩ := read_eq_ok_iff.mp hread
  have inner := value_infix hparts
  exact ⟨one.part inner, trimmed_value (LogicalLine.last_of_mem_gather hl) hparts⟩

theorem base_of_read {line : Int} {text : String} (h : read line text = .ok x)
    (other : x.keyword ≠ .fromImage) : x.image = none ∧ x.tag = none ∧ x.stage = none := by
  obtain ⟨keyword, value, -, rfl⟩ := read_eq_ok_iff.mp h
  have none : baseOf keyword value = none := if_neg other
  simp [ofParts, none]

end Instruction

/-- The instructions of a text have increasing lines, and each of them is well-formed. -/
theorem parse_wellFormed (content : String) :
    (parse content).Pairwise (fun x y => x.line < y.line) ∧
      ∀ x ∈ parse content, x.WellFormed (linesOf content.toList) := by
  refine ⟨pairwise_line_parse content, fun x hx => ?_⟩
  obtain ⟨l, hl, hread⟩ := exists_logicalLine_of_mem_parse hx
  exact {
    line := line_of_mem_parse hx
    start := Instruction.exists_start_of_mem_parse hx
    text := ⟨(standsAlone_of_mem_parse hx).oneLine, Instruction.exists_last_of_mem_parse hx⟩
    value := Instruction.value_of_mem_parse hx
    base := Instruction.base_of_read hread }

/-- A continuation that starts with a lone backslash, goes over a blank line and ends at a line
break other than a line feed. -/
theorem parse_wellFormed_continued :
    let content := "\\\nRUN a \\\n\n\tb\u2028FROM c"
    ∃ x ∈ parse content, x.line = 1 ∧ x.text = " RUN a b" ∧ x.value = "a b" ∧
      x.WellFormed (linesOf content.toList) := by
  intro content
  have found : ∃ x ∈ parse content, x.line = 1 ∧ x.text = " RUN a b" ∧ x.value = "a b" := by
    decide +kernel
  obtain ⟨x, hx, line, text, value⟩ := found
  exact ⟨x, hx, line, text, value, (parse_wellFormed content).2 x hx⟩

end Dockerfile
