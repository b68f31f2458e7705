import Dockerfile.Proofs.Instruction.Lines
import Dockerfile.Proofs.Instruction.Reading
import Dockerfile.Proofs.Text.Words

/-!
The words of a FROM.

In the plain form they are one word for image and tag and, after it, nothing or the word `as` with
the name of the stage (`wordsOf_of_ofChars?`), and a value without blanks at its ends is in the plain
form as soon as its words are these (`ofChars?_eq_some_iff`). A logical line ends in no blank
(`LogicalLine.last_of_mem_gather`), so the value that is read from it has none at either end
(`Instruction.trimmed_value`).
-/

namespace Dockerfile

open Text

/-! ### The plain form -/

namespace BaseImage

variable {cs : List Char} {s : String} {stage : Option String} {base : BaseImage}

/-- The word before the name of a stage, in any of the forms in which it is read. -/
def IsMarker (w : List Char) : Prop :=
  ∃ a s, w = [a, s] ∧ isWordAs a s = true

/-- The words after an image: none, or a marker and the name of the stage. -/
inductive StageWords : Option String → List (List Char) → Prop
  | absent : StageWords none []
  | named {marker : List Char} (s : String) : IsMarker marker →
      StageWords (some s) [marker, s.toList]

theorem isMarker_as : IsMarker "as".toList :=
  ⟨'a', 's', rfl, by decide⟩

theorem word_of_isWordAs {a s : Char} (h : isWordAs a s = true) : Word [a, s] := by
  simp only [isWordAs, Bool.and_eq_true, Bool.or_eq_true, beq_iff_eq] at h
  obtain ⟨ha, hs⟩ := h
  have first : isBlank a = false := by rcases ha with rfl | rfl <;> decide
  have second : isBlank s = false := by rcases hs with (rfl | rfl) | rfl <;> decide
  refine ⟨List.cons_ne_nil _ _, ?_⟩
  simp [first, second]

theorem wordsOf_of_atEnd (h : atEnd cs = true) : wordsOf cs = [] := by
  rw [atEnd, Bool.or_eq_true, beq_iff_eq, beq_iff_eq] at h
  rcases h with rfl | rfl <;> rfl

theorem wordsOf_of_lastWord? (h : lastWord? cs = some s) : wordsOf cs = [s.toList] := by
  have word : Word s.toList := (lastWord?_eq_some h).1
  rw [lastWord?, Option.ite_none_right_eq_some, Bool.and_eq_true, Option.some.injEq] at h
  obtain ⟨⟨-, hend⟩, rfl⟩ := h
  rw [String.toList_ofList] at word ⊢
  have blank : ∀ c ∈ (cs.dropWhile (! isBlank ·)).head?, isBlank c = true := by
    intro c hc
    rw [atEnd, Bool.or_eq_true, beq_iff_eq, beq_iff_eq] at hend
    rcases hend with hend | hend <;> rw [hend] at hc <;> cases hc
    decide
  calc wordsOf cs
      = wordsOf (cs.takeWhile (! isBlank ·) ++ cs.dropWhile (! isBlank ·)) := by
        rw [List.takeWhile_append_dropWhile]
    _ = [cs.takeWhile (! isBlank ·)] := by
        rw [wordsOf_word_append word blank, wordsOf_of_atEnd hend]

theorem wordsOf_of_readStage? (h : readStage? cs = some stage) :
    StageWords stage (wordsOf cs) := by
  rw [readStage?] at h
  split at h
  · next hend =>
    cases h
    rw [wordsOf_of_atEnd hend]
    exact .absent
  · split at h
    · next a d blank rest heq =>
      rw [Option.ite_none_right_eq_some, Option.map_eq_some_iff, Bool.and_eq_true] at h
      obtain ⟨⟨hmarker, hblank⟩, s, hlast, rfl⟩ := h
      have later : wordsOf rest = [s.toList] := by
        rw [← wordsOf_dropWhile, wordsOf_of_lastWord? hlast]
      have hwords : wordsOf cs = [[a, d], s.toList] := by
        rw [← wordsOf_dropWhile, heq]
        change wordsOf ([a, d] ++ blank :: rest) = _
        rw [wordsOf_append_cons hblank, wordsOf_word (word_of_isWordAs hmarker), later]
        rfl
      rw [hwords]
      exact .named s ⟨a, d, rfl, hmarker⟩
    · cases h

/-- The text after image and tag is read from its words, if it ends in no blank. -/
theorem readStage?_of_wordsOf (last : ∀ c ∈ cs.getLast?, isBlank c = false)
    (h : StageWords stage (wordsOf cs)) : readStage? cs = some stage := by
  generalize hwords : wordsOf cs = words at h
  cases h with
  | absent =>
    rw [eq_nil_of_wordsOf_eq_nil last hwords]
    rfl
  | named s hmarker =>
    have notEnd : atEnd cs = false := by
      rw [Bool.eq_false_iff]
      intro hend
      cases hwords.symm.trans (wordsOf_of_atEnd hend)
    obtain ⟨rest, start, -, behind, later⟩ := exists_of_wordsOf_eq_cons hwords
    obtain ⟨a, d, rfl, hmarker⟩ := hmarker
    cases rest with
    | nil => cases later
    | cons blank rest =>
      have hblank : isBlank blank = true := behind blank rfl
      have after : rest <:+ cs.dropWhile isBlank := ⟨[a, d, blank], start.symm⟩
      have within := (List.dropWhile_suffix isBlank).trans
        (after.trans (List.dropWhile_suffix isBlank))
      have ends : Trimmed (rest.dropWhile isBlank) :=
        ⟨head_dropWhile_isBlank rest, last_of_suffix within last⟩
      rw [wordsOf_cons_blank hblank, ← wordsOf_dropWhile] at later
      obtain ⟨-, -, word, -, -⟩ := exists_of_wordsOf_eq_cons later
      rw [readStage?, notEnd, start]
      simp [hmarker, hblank, eq_of_wordsOf_eq_singleton ends later, lastWord?_of_word word]

theorem exists_word_of_ofChars? (h : ofChars? cs = some base) :
    ∃ word rest, cs = word ++ rest ∧ Word word ∧ ∀ c ∈ rest.head?, isBlank c = true := by
  cases cs with
  | nil => simp [ofChars?] at h
  | cons c cs =>
    refine exists_word_append (fun d hd => ?_) (List.cons_ne_nil c cs)
    cases hd
    rw [Bool.eq_false_iff]
    intro blank
    simp [ofChars?, blank] at h

/-- A FROM in the plain form is a word for image and tag and the words for its stage. -/
theorem wordsOf_of_ofChars? (h : ofChars? cs = some base) :
    ∃ word rest, wordsOf cs = word :: rest ∧
      ImageWord base.image base.tag (String.ofList word) ∧ StageWords base.stage rest := by
  obtain ⟨word, rest, rfl, hword, behind⟩ := exists_word_of_ofChars? h
  obtain ⟨named, hstage⟩ := (ofChars?_word_append hword behind).mp h
  exact ⟨word, wordsOf rest, wordsOf_word_append hword behind, named, wordsOf_of_readStage? hstage⟩

/-- These words are all that it takes, if no blank stands at either end. -/
theorem ofChars?_eq_some_iff (ends : Trimmed cs) :
    ofChars? cs = some base ↔
      ∃ word rest, wordsOf cs = word :: rest ∧
        ImageWord base.image base.tag (String.ofList word) ∧ StageWords base.stage rest := by
  refine ⟨wordsOf_of_ofChars?, ?_⟩
  rintro ⟨word, rest, hwords, named, hrest⟩
  obtain ⟨later, heq, hword, behind, rfl⟩ := exists_of_wordsOf_eq_cons hwords
  rw [dropWhile_isBlank_eq_self ends.head] at heq
  have last := last_of_suffix ⟨word, heq.symm⟩ ends.last
  rw [heq]
  exact (ofChars?_word_append hword behind).mpr ⟨named, readStage?_of_wordsOf last hrest⟩

theorem colon_mem_of_tag (h : ofChars? cs = some base)
    (tagged : base.tag ≠ none) : ':' ∈ cs := by
  rw [ofChars?, Option.ite_none_left_eq_some] at h
  obtain ⟨-, h⟩ := h
  split at h
  · next rest heq =>
    have later : ':' :: rest <:+ cs := heq ▸ List.dropWhile_suffix _
    exact later.subset List.mem_cons_self
  · obtain ⟨stage, -, rfl⟩ := Option.map_eq_some_iff.mp h
    exact absurd rfl tagged

end BaseImage

/-! ### The ends of a value -/

theorem LogicalLine.last_of_mem_gather {pending : Option Pending} {number : Nat}
    {physicals : List (List Char)} {line : LogicalLine}
    (h : line ∈ gather pending number physicals) :
    ∀ c ∈ line.chars.getLast?, isBlank c = false := by
  induction physicals generalizing pending number with
  | nil => simp [gather] at h
  | cons physical rest ih =>
    rcases trim_cases physical with hblank | hlast | hclose
    · rw [gather_blank hblank] at h
      exact ih h
    · rw [gather_continues hlast] at h
      exact ih h
    · rw [gather_closes hclose] at h
      rcases List.mem_cons.mp h with rfl | h
      · -- The last piece is not empty, so the line ends as it does.
        have ne := hclose.trim_ne_nil
        intro c hc
        apply (trimmed_trim physical).last c
        cases pending with
        | none => exact hc
        | some p =>
          rw [Pending.complete] at hc
          by_cases pieces : p.pieces = []
          · simpa [pieces] using hc
          · rw [intercalate_concat pieces, List.append_cons,
              List.getLast?_append_of_ne_nil _ ne] at hc
            exact hc
      · exact ih h

theorem Instruction.trimmed_value {cs : List Char} {keyword : Keyword} {value : String}
    (last : ∀ c ∈ cs.getLast?, isBlank c = false)
    (h : parts? (String.ofList cs) = some (keyword, value)) : Trimmed value.toList := by
  rcases value_of_parts? h with ⟨rest, -, hvalue⟩ | ⟨rest, hrest, hvalue⟩
  · rw [hvalue]
    exact trimmed_trim rest
  · rw [hvalue]
    exact ⟨head_dropWhile_isBlank rest,
      last_of_suffix ((List.dropWhile_suffix isBlank).trans hrest) last⟩

end Dockerfile
