import Dockerfile.Proofs.Optimize.Verdicts

/-!
The grammar of a FROM, and the stages that it names.

A FROM is taken apart twice: the reader of base images goes through its characters, and the rule on
copies from stages looks at its words. The marker before the name of a stage is the same in both,
because `as`, in any case and with a long s, is all that has the upper-case form `AS`
(`BaseImage.isMarker_iff`). So the reader accepts exactly the words of the plain form
(`BaseImage.plainForm_iff`), and where it accepts all FROMs of a file, the rule finds the stages
that it found.
-/

namespace Dockerfile

open Text Rule

/-! ### Upper-case forms -/

namespace Text

variable {c d e : Char} {cs : List Char}

/-- The character itself, or the small letter to it. -/
theorem eq_of_toUpper (h : c.toUpper = d) : c = d ∨ c.toNat = d.toNat + 32 := by
  subst h
  delta Char.toUpper
  split
  · next small =>
    have lower := UInt32.le_iff_toNat_le.mp small.1
    have upper := UInt32.le_iff_toNat_le.mp small.2
    right
    simp at lower upper ⊢
    omega
  · exact Or.inl rfl

theorem upperForm_ne_nil (c : Char) : upperForm c ≠ [] := by
  unfold upperForm
  split <;> exact List.cons_ne_nil _ _

theorem eq_of_upperForm (h : upperForm c = [d]) :
    c.toUpper = d ∨ c = 'ı' ∧ d = 'I' ∨ c = 'ſ' ∧ d = 'S' := by
  unfold upperForm at h
  split at h
  all_goals simp only [List.cons.injEq, List.cons_ne_nil, and_false, and_true] at h
  · exact Or.inr (Or.inl ⟨rfl, h.symm⟩)
  · exact Or.inr (Or.inr ⟨rfl, h.symm⟩)
  · exact Or.inl h

/-- No single character has the upper-case form `AS`. -/
theorem upperForm_ne_as (c : Char) : upperForm c ≠ ['A', 'S'] := by
  unfold upperForm
  split <;> simp

theorem flatMap_upperForm_eq_singleton (h : cs.flatMap upperForm = [d]) :
    ∃ c, cs = [c] ∧ upperForm c = [d] := by
  cases cs with
  | nil => cases h
  | cons c cs =>
    rw [List.flatMap_cons, List.append_eq_singleton_iff] at h
    rcases h with ⟨nothing, -⟩ | ⟨here, nothing⟩
    · exact absurd nothing (upperForm_ne_nil c)
    · rw [List.flatMap_eq_nil_iff] at nothing
      have none : cs = [] := List.eq_nil_iff_forall_not_mem.mpr fun b hb =>
        upperForm_ne_nil b (nothing b hb)
      exact ⟨c, by rw [none], here⟩

/-- Two letters are the upper-case form of two characters, or of one. -/
theorem flatMap_upperForm_eq_pair (h : cs.flatMap upperForm = [d, e]) :
    (∃ a b, cs = [a, b] ∧ upperForm a = [d] ∧ upperForm b = [e]) ∨
      ∃ c, upperForm c = [d, e] := by
  cases cs with
  | nil => cases h
  | cons c cs =>
    rw [List.flatMap_cons, List.append_eq_cons_iff] at h
    rcases h with ⟨nothing, -⟩ | ⟨more, first, later⟩
    · exact absurd nothing (upperForm_ne_nil c)
    · rcases List.append_eq_singleton_iff.mp later.symm with ⟨rfl, second⟩ | ⟨rfl, -⟩
      · obtain ⟨b, rfl, hb⟩ := flatMap_upperForm_eq_singleton second
        exact Or.inl ⟨c, b, rfl, first, hb⟩
      · exact Or.inr ⟨c, first⟩

end Text

/-! ### The plain form -/

namespace BaseImage

variable {base : BaseImage}

theorem isWordAs_of_upperForm {a s : Char} (first : upperForm a = ['A'])
    (second : upperForm s = ['S']) : isWordAs a s = true := by
  have ha : a = 'A' ∨ a = 'a' := by
    have upper := (eq_of_upperForm first).resolve_right (by simp)
    exact (eq_of_toUpper upper).imp_right fun small => Char.toNat_inj.mp small
  have hs : (s = 'S' ∨ s = 's') ∨ s = 'ſ' := by
    rcases eq_of_upperForm second with upper | ⟨-, letter⟩ | ⟨long, -⟩
    · exact Or.inl ((eq_of_toUpper upper).imp_right fun small => Char.toNat_inj.mp small)
    · cases letter
    · exact Or.inr long
  rcases ha with rfl | rfl <;> rcases hs with (rfl | rfl) | rfl <;> decide

theorem isMarker_iff {marker : String} : IsMarker marker.toList ↔ upper marker = "AS" := by
  constructor
  · intro h
    simpa using upper_of_isMarker h
  · intro h
    have letters : marker.toList.flatMap upperForm = ['A', 'S'] := by
      rw [← String.toList_ofList (l := marker.toList.flatMap upperForm)]
      exact congrArg String.toList h
    rcases flatMap_upperForm_eq_pair letters with ⟨a, s, heq, first, second⟩ | ⟨c, both⟩
    · exact ⟨a, s, heq, isWordAs_of_upperForm first second⟩
    · exact absurd both (upperForm_ne_as c)

/-- The words of a FROM in the plain form, and the base image that they name. -/
inductive PlainForm : List String → BaseImage → Prop
  | unnamed {image word : String} {tag : Option String} : ImageWord image tag word →
      PlainForm [word] ⟨image, tag, none⟩
  | named {image word marker name : String} {tag : Option String} : ImageWord image tag word →
      upper marker = "AS" → PlainForm [word, marker, name] ⟨image, tag, some name⟩

/-- The reader of base images accepts exactly the plain form. -/
theorem plainForm_iff {value : String} (ends : Trimmed value.toList) :
    PlainForm (words value) base ↔ ofValue? value = some base := by
  rw [ofValue?, ofChars?_eq_some_iff ends, ← map_toList_words]
  generalize words value = ws
  constructor
  · intro h
    cases h with
    | unnamed hword => exact ⟨_, [], rfl, by simpa using hword, .absent⟩
    | named hword marker =>
      exact ⟨_, _, rfl, by simpa using hword, .named _ (isMarker_iff.mpr marker)⟩
  · rintro ⟨first, rest, hwords, hword, hrest⟩
    obtain ⟨word, later, rfl, rfl, rfl⟩ := List.map_eq_cons_iff.mp hwords
    rw [String.ofList_toList] at hword
    obtain ⟨image, tag, stage⟩ := base
    generalize hlater : later.map String.toList = rest at hrest
    cases hrest with
    | absent =>
      rw [List.map_eq_nil_iff.mp hlater]
      exact .unnamed hword
    | named name hmarker =>
      obtain ⟨marker, more, rfl, rfl, hmore⟩ := List.map_eq_cons_iff.mp hlater
      obtain ⟨last, rfl, same⟩ := List.map_eq_singleton_iff.mp hmore
      rw [String.toList_inj.mp same]
      exact .named hword (isMarker_iff.mp hmarker)

end BaseImage

/-! ### The stages of a file -/

theorem stage_of_mem_parse {content : String} {x : Instruction} (h : x ∈ parse content)
    (hk : x.keyword ≠ .fromImage) : x.stage = none := by
  obtain ⟨l, -, hread⟩ := exists_logicalLine_of_mem_parse h
  obtain ⟨keyword, value, -, rfl⟩ := Instruction.read_eq_ok_iff.mp hread
  have other : Instruction.baseOf keyword value = none := if_neg hk
  simp [Instruction.ofParts, other]

theorem stageName?_of_mem_parse {content : String} {x : Instruction}
    (h : x ∈ froms (parse content)) (known : x.image ≠ none) : stageName? x.value = x.stage := by
  obtain ⟨himage, -, hstage, -⟩ := base_of_mem_parse h
  cases hbase : BaseImage.ofValue? x.value with
  | none =>
    rw [hbase] at himage
    exact absurd himage known
  | some base =>
    obtain ⟨word, rest, hwords, -, hrest⟩ := BaseImage.wordsOf_of_ofChars? hbase
    rw [stageName?_of_stageWords hwords hrest, hstage, hbase]
    rfl

/-- A FROM has a base image exactly if its words are in the plain form, and that base image is the
one they name. Where all FROMs have one, the names of the stages are those that were read. -/
theorem parse_plainForm (content : String) :
    (∀ x ∈ froms (parse content),
      (x.image ≠ none ↔ ∃ base, BaseImage.PlainForm (words x.value) base) ∧
        ∀ base, BaseImage.PlainForm (words x.value) base →
          x.image = some base.image ∧ x.tag = base.tag ∧ x.stage = base.stage) ∧
      ((∀ x ∈ froms (parse content), x.image ≠ none) →
        stageNames (parse content) = (parse content).filterMap Instruction.stage) := by
  refine ⟨fun x hx => ?_, fun known => ?_⟩
  · obtain ⟨himage, htag, hstage, ends⟩ := base_of_mem_parse hx
    simp only [BaseImage.plainForm_iff ends]
    refine ⟨?_, fun base hbase => ?_⟩
    · rw [himage, ← Option.isSome_iff_ne_none, Option.isSome_map, Option.isSome_iff_exists]
    · rw [himage, htag, hstage, hbase]
      exact ⟨rfl, rfl, rfl⟩
  · rw [stageNames, List.filterMap_filter]
    refine List.filterMap_congr fun x hx => ?_
    by_cases hk : x.keyword = .fromImage
    · have hfrom : x ∈ froms (parse content) := List.mem_filter.mpr ⟨hx, by simp [hk]⟩
      simp [hk, stageName?_of_mem_parse hfrom (known x hfrom)]
    · simp [hk, stage_of_mem_parse hx hk]

/-- A tag with a colon of its own, a marker with a long s, and blanks that are more than one. -/
theorem parse_plainForm_stages :
    let xs := parse "FROM  go:1:2  aſ\tb\nRUN c\nFROM d\nFROM e As f"
    (∀ x ∈ froms xs, x.image ≠ none ∧ ∃ base, BaseImage.PlainForm (words x.value) base) ∧
      (froms xs).map Instruction.tag = [some "1:2", none, none] ∧
      stageNames xs = ["b", "f"] ∧ xs.filterMap Instruction.stage = ["b", "f"] := by
  intro xs
  have known : ∀ x ∈ froms xs, x.image ≠ none := by decide +kernel
  have names : stageNames xs = ["b", "f"] := by decide +kernel
  obtain ⟨forms, stages⟩ := parse_plainForm "FROM  go:1:2  aſ\tb\nRUN c\nFROM d\nFROM e As f"
  refine ⟨fun x hx => ⟨known x hx, (forms x hx).1.mp (known x hx)⟩, by decide +kernel, names, ?_⟩
  rw [← stages known, names]

end Dockerfile
