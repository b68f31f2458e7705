import Dockerfile.Proofs.Rule.Places
import Dockerfile.Proofs.Rule.StageNames
import Dockerfile.Proofs.Text.Phrase

/-!
Tags as the rule on unpinned base images sees them.

The rule does not look at the tag that was read. It looks for a colon anywhere in the value of a
FROM, and for `:latest` at its end. The value ends in the tag only as long as no stage is named:
behind a stage the tag is out of sight, and the name of the stage is taken for it. So the tag and
the name of the stage decide together what the rule says (`isUnpinned_iff_of_base`), and there are
FROMs on which it is wrong (`Misjudged`).
-/

namespace Dockerfile

open Text

/-! ### The ends of a text -/

/-- A phrase without blanks ends a text exactly if it ends the last word. -/
theorem Text.suffix_iff_of_wordsOf {cs w phrase : List Char} {ws : List (List Char)}
    (last : ∀ c ∈ cs.getLast?, isBlank c = false) (hwords : wordsOf cs = ws ++ [w])
    (solid : ∀ c ∈ phrase, isBlank c = false) : phrase <:+ cs ↔ phrase <:+ w := by
  have ne : cs ≠ [] := by
    rintro rfl
    simp at hwords
  obtain ⟨lead, word, rfl, isWord, blank⟩ := exists_append_word ne last
  rw [wordsOf_append_word isWord blank] at hwords
  obtain ⟨-, same⟩ := List.append_inj' hwords rfl
  obtain rfl := List.singleton_inj.mp same
  cases lead using List.reverseRecOn with
  | nil => rw [List.nil_append]
  | append_singleton lead c =>
    have hc : c ∉ phrase := by
      intro hc
      cases (solid c hc).symm.trans (blank c (by simp))
    rw [List.append_assoc, List.singleton_append, suffix_append_cons_iff hc]

namespace Rule

variable {value image tag stage : String} {base : BaseImage} {x : Instruction} {content : String}

/-- The text ends in a colon and the moving tag. -/
def EndsInLatest (s : String) : Prop :=
  endsWith s ":latest" = true

instance : DecidablePred EndsInLatest :=
  fun s => inferInstanceAs (Decidable (endsWith s ":latest" = true))

theorem endsInLatest_iff : EndsInLatest value ↔ ":latest".toList <:+ value.toList := by
  rw [EndsInLatest, endsWith, List.isSuffixOf_iff_suffix]

theorem isUnpinned_iff : isUnpinned value = true ↔ ':' ∉ value.toList ∨ EndsInLatest value := by
  have colon : mentions value ":" = true ↔ ':' ∈ value.toList := by
    rw [mentions_iff]
    exact List.singleton_infix_iff ':' _
  rw [isUnpinned, Bool.or_eq_true, Bool.not_eq_true', Bool.eq_false_iff, Ne, colon, EndsInLatest]

/-- An image with a tag ends like the tag, unless that is the moving tag itself. -/
theorem endsInLatest_tagged (himage : ':' ∉ image.toList) :
    EndsInLatest (image ++ ":" ++ tag) ↔ tag = "latest" ∨ EndsInLatest tag := by
  have split : (image ++ ":" ++ tag).toList = image.toList ++ ':' :: tag.toList := by simp
  have same : ":latest".toList = ':' :: tag.toList ↔ tag = "latest" := by
    rw [← String.toList_inj]
    exact ⟨fun h => (List.tail_eq_of_cons_eq h).symm, fun h => congrArg _ h.symm⟩
  rw [endsInLatest_iff, endsInLatest_iff, split, suffix_append_iff rfl himage,
    List.suffix_cons_iff, same]

/-! ### What the rule sees -/

/-- The tag and the stage with which a FROM is taken as unpinned. -/
def TakenAsUnpinned : Option String → Option String → Prop
  | none, none => True
  | some tag, none => tag = "latest" ∨ EndsInLatest tag
  | none, some stage => ':' ∉ stage.toList ∨ EndsInLatest stage
  | some _, some stage => EndsInLatest stage

/-- A value of three words ends in the last of them. -/
theorem isUnpinned_iff_of_words {word marker : List Char} (ends : Trimmed value.toList)
    (hwords : wordsOf value.toList = [word, marker, stage.toList])
    (hmarker : BaseImage.IsMarker marker) :
    isUnpinned value = true ↔ ':' ∉ word ∧ ':' ∉ stage.toList ∨ EndsInLatest stage := by
  have solid : Word ":latest".toList := by decide
  have three : wordsOf value.toList = [word, marker] ++ [stage.toList] := hwords
  have plain : ':' ∉ marker := by
    obtain ⟨a, s, rfl, letters⟩ := hmarker
    intro colon
    rcases List.mem_pair.mp colon with rfl | rfl <;> simp [BaseImage.isWordAs] at letters
  rw [isUnpinned_iff, endsInLatest_iff, suffix_iff_of_wordsOf ends.last three solid.not_blank,
    ← endsInLatest_iff, mem_iff_exists_wordsOf (by decide), hwords]
  simp [plain]

theorem isUnpinned_iff_of_base (ends : Trimmed value.toList)
    (h : BaseImage.ofValue? value = some base) :
    isUnpinned value = true ↔ TakenAsUnpinned base.tag base.stage := by
  obtain ⟨word, rest, hwords, named, hrest⟩ := BaseImage.wordsOf_of_ofChars? h
  obtain ⟨image, tag, stage⟩ := base
  obtain ⟨word, rfl⟩ : ∃ w : String, word = w.toList := ⟨String.ofList word, by simp⟩
  rw [String.ofList_toList] at named
  cases hrest with
  | absent =>
    rw [String.toList_inj.mp (eq_of_wordsOf_eq_singleton ends hwords), isUnpinned_iff]
    cases named with
    | bare _ colon => simp [TakenAsUnpinned, colon]
    | tagged _ colon _ => simp [TakenAsUnpinned, endsInLatest_tagged colon]
  | named stage marker =>
    rw [isUnpinned_iff_of_words ends hwords marker]
    cases named with
    | bare _ colon => simp [TakenAsUnpinned, colon]
    | tagged _ _ _ => simp [TakenAsUnpinned]

/-! ### Where the rule is wrong -/

/-- The tag and the stage of a FROM on which the rule is wrong: a tag that only ends like the moving
one, a stage with a colon where there is no tag, and behind a tag a stage that ends in `:latest`
while the tag is another, or does not while it is that one. -/
def Misjudged : Option String → Option String → Prop
  | none, none => False
  | some tag, none => EndsInLatest tag
  | none, some stage => ':' ∈ stage.toList ∧ ¬ EndsInLatest stage
  | some tag, some stage => ¬ (EndsInLatest stage ↔ tag = "latest")

theorem not_misjudged_iff {tag stage : Option String} :
    ¬ Misjudged tag stage ↔ (TakenAsUnpinned tag stage ↔ tag = none ∨ tag = some "latest") := by
  match tag, stage with
  | none, none => simp [Misjudged, TakenAsUnpinned]
  | none, some stage =>
    simp only [Misjudged, TakenAsUnpinned, not_and, not_not, true_or, iff_true]
    exact imp_iff_not_or
  | some tag, some stage => simp [Misjudged, TakenAsUnpinned]
  | some tag, none =>
    have moving : ¬ EndsInLatest "latest" := by decide
    simp only [Misjudged, TakenAsUnpinned, reduceCtorEq, Option.some.injEq, false_or]
    constructor
    · intro other
      rw [or_iff_left other]
    · intro same ends
      exact moving (same.mp (.inr ends) ▸ ends)

theorem reported_iff_isUnpinned (hx : x ∈ froms (parse content)) :
    (∃ f ∈ checkUnpinnedBase (parse content), f.line = x.line) ↔ isUnpinned x.value = true := by
  unfold checkUnpinnedBase
  constructor
  · rintro ⟨f, hf, same⟩
    obtain ⟨y, hy, rfl⟩ := List.mem_map.mp hf
    obtain ⟨hy, unpinned⟩ := List.mem_filter.mp hy
    -- a line of a text tells which instruction it is
    obtain rfl : y = x := eq_of_line_eq hy (List.mem_of_mem_filter hx) same
    rw [Bool.and_eq_true] at unpinned
    exact unpinned.2
  · intro unpinned
    refine ⟨_, List.mem_map_of_mem (List.mem_filter.mpr ⟨List.mem_of_mem_filter hx, ?_⟩), rfl⟩
    simp [keyword_of_mem_froms hx, unpinned]

theorem taken_of_mem_froms (hx : x ∈ froms (parse content)) (known : x.image ≠ none) :
    isUnpinned x.value = true ↔ TakenAsUnpinned x.tag x.stage := by
  obtain ⟨himage, htag, hstage, ends⟩ := base_of_mem_parse hx
  cases hbase : BaseImage.ofValue? x.value with
  | none => simp [himage, hbase] at known
  | some base =>
    rw [htag, hstage, hbase]
    exact isUnpinned_iff_of_base ends hbase

/-- A FROM whose image is known is reported as unpinned as its tag and its stage have it, and that
is what the tag alone would say exactly if the FROM is not misjudged. -/
theorem unpinnedBase_reported_iff (hx : x ∈ froms (parse content)) (known : x.image ≠ none) :
    ((∃ f ∈ checkUnpinnedBase (parse content), f.line = x.line) ↔
        TakenAsUnpinned x.tag x.stage) ∧
      (((∃ f ∈ checkUnpinnedBase (parse content), f.line = x.line) ↔
          x.tag = none ∨ x.tag = some "latest") ↔ ¬ Misjudged x.tag x.stage) := by
  rw [reported_iff_isUnpinned hx, taken_of_mem_froms hx known]
  exact ⟨Iff.rfl, not_misjudged_iff.symm⟩

/-- A pinned image is reported for the name of its stage. -/
theorem unpinnedBase_reported_iff_stage :
    let xs := parse "FROM go:1.21 AS b:latest"
    ∃ x ∈ froms xs, x.image ≠ none ∧ x.tag = some "1.21" ∧
      (∃ f ∈ checkUnpinnedBase xs, f.line = x.line) ∧ Misjudged x.tag x.stage := by
  intro xs
  have read : ∃ x ∈ froms xs, x.image = some "go" ∧ x.tag = some "1.21" ∧
      x.stage = some "b:latest" := by
    decide +kernel
  obtain ⟨x, hx, image, tag, stage⟩ := read
  have known : x.image ≠ none := by simp [image]
  obtain ⟨reported, judged⟩ := unpinnedBase_reported_iff hx known
  have found : ∃ f ∈ checkUnpinnedBase xs, f.line = x.line := by
    rw [reported, tag, stage]
    exact (by decide : EndsInLatest "b:latest")
  refine ⟨x, hx, known, tag, found, ?_⟩
  by_contra right
  simpa [tag] using (judged.mpr right).mp found

/-- The moving tag goes unreported where a stage is named behind it. -/
theorem unpinnedBase_moving_behind_stage :
    let xs := parse "FROM python:latest as build"
    (∃ x ∈ froms xs, x.image = some "python" ∧ x.tag = some "latest") ∧
      checkUnpinnedBase xs = [] := by
  decide +kernel

end Rule

end Dockerfile
