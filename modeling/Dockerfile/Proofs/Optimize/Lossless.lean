import Dockerfile.Proofs.Instruction.WellFormed
import Dockerfile.Proofs.Optimize.Step

/-!
Merging loses nothing: cut at its separator, a merged value is again the values that were merged.

Cutting goes from left to right, so a value could hide a separator or reach into one. But every
separator holds a line feed, and the value of an instruction that was parsed holds none
(`separable_of_mem_parse`). The first line feed of a joined text therefore belongs to the first
separator, and that is where the text is cut (`cutFrom_separator`). What the cut gives is the values
as they were, since a value that was parsed has no blanks at its ends for merging to trim.
-/

namespace Dockerfile

open Text Optimize

/-! ### Cutting a text -/

namespace Text

variable {phrase lead tail v w rest : List Char} {c : Char}

/-- Drops `skip` characters, then cuts the text at every occurrence of the phrase that starts after
them. -/
def cutFrom (phrase : List Char) : Nat → List Char → List (List Char)
  | _, [] => [[]]
  | skip + 1, _ :: rest => cutFrom phrase skip rest
  | 0, c :: rest =>
    if phrase.isPrefixOf (c :: rest) then [] :: cutFrom phrase (phrase.length - 1) rest
    else (cutFrom phrase 0 rest).modifyHead (c :: ·)

/-- The parts of a text between the occurrences of the (non-empty) phrase, which are found from left
to right and without overlap. -/
def cutAt (phrase s : String) : List String :=
  (cutFrom phrase.toList 0 s.toList).map String.ofList

theorem cutFrom_length_append (phrase a rest : List Char) :
    cutFrom phrase a.length (a ++ rest) = cutFrom phrase 0 rest := by
  induction a with
  | nil => rfl
  | cons c a ih =>
    rw [List.length_cons, List.cons_append, cutFrom]
    exact ih

theorem cutFrom_phrase_append (ne : phrase ≠ []) :
    cutFrom phrase 0 (phrase ++ rest) = [] :: cutFrom phrase 0 rest := by
  obtain ⟨c, tail, rfl⟩ := List.exists_cons_of_ne_nil ne
  have found : (c :: tail).isPrefixOf (c :: (tail ++ rest)) = true :=
    List.isPrefixOf_iff_prefix.mpr ⟨rest, rfl⟩
  rw [List.cons_append, cutFrom, if_pos found, List.length_cons, Nat.add_sub_cancel,
    cutFrom_length_append]

theorem cutFrom_cons (h : phrase.isPrefixOf (c :: rest) = false) :
    cutFrom phrase 0 (c :: rest) = (cutFrom phrase 0 rest).modifyHead (c :: ·) := by
  rw [cutFrom, h]
  rfl

/-- A text that lacks a character of the phrase is not cut. -/
theorem cutFrom_of_notMem (hc : c ∈ phrase) (h : c ∉ v) : cutFrom phrase 0 v = [v] := by
  induction v with
  | nil => rfl
  | cons d v ih =>
    have start : phrase.isPrefixOf (d :: v) = false := by
      rw [Bool.eq_false_iff, Ne, List.isPrefixOf_iff_prefix]
      exact fun pre => h (pre.subset hc)
    rw [cutFrom_cons start, ih fun hv => h (List.mem_cons_of_mem _ hv)]
    rfl

/-- A separator does not start before the place that its first line feed gives away. -/
theorem not_prefix_of_notMem (hlead : c ∉ lead) (hv : c ∉ v) (ne : v ≠ []) (tail rest : List Char) :
    ¬ lead ++ c :: tail <+: v ++ (lead ++ c :: rest) := by
  intro pre
  have start : lead ++ [c] <+: v ++ (lead ++ c :: rest) :=
    List.IsPrefix.trans ⟨tail, by simp⟩ pre
  have before : v ++ lead <+: v ++ (lead ++ c :: rest) := ⟨c :: rest, by simp⟩
  have shorter : (lead ++ [c]).length ≤ (v ++ lead).length := by
    have := List.length_pos_iff.mpr ne
    simp only [List.length_append, List.length_singleton]
    omega
  have within : c ∈ v ++ lead :=
    (List.prefix_of_prefix_length_le start before shorter).subset (by simp)
  rcases List.mem_append.mp within with hcv | hcl
  · exact hv hcv
  · exact hlead hcl

/-- A text without a line feed is cut off at the separator that follows it. -/
theorem cutFrom_separator (hlead : c ∉ lead) (hv : c ∉ v) :
    cutFrom (lead ++ c :: tail) 0 (v ++ (lead ++ c :: tail) ++ rest)
      = v :: cutFrom (lead ++ c :: tail) 0 rest := by
  induction v with
  | nil => exact cutFrom_phrase_append (by simp)
  | cons d v ih =>
    -- A separator that started here would have its line feed before the first one of the text.
    have start : (lead ++ c :: tail).isPrefixOf (d :: (v ++ (lead ++ c :: tail) ++ rest))
        = false := by
      rw [Bool.eq_false_iff, Ne, List.isPrefixOf_iff_prefix]
      simpa using not_prefix_of_notMem hlead hv (List.cons_ne_nil d v) tail (tail ++ rest)
    rw [List.cons_append, List.cons_append, cutFrom_cons start,
      ih fun hc => hv (List.mem_cons_of_mem _ hc)]
    rfl

theorem cutFrom_intercalate (hlead : c ∉ lead) {vs : List (List Char)} (ne : vs ≠ [])
    (h : ∀ v ∈ vs, c ∉ v) :
    cutFrom (lead ++ c :: tail) 0 ((lead ++ c :: tail).intercalate vs) = vs := by
  induction vs with
  | nil => exact absurd rfl ne
  | cons v vs ih =>
    have hv : c ∉ v := h v List.mem_cons_self
    cases vs with
    | nil => rw [List.intercalate_singleton, cutFrom_of_notMem (by simp) hv]
    | cons w vs =>
      rw [List.intercalate_cons_cons, cutFrom_separator hlead hv,
        ih (List.cons_ne_nil w vs) fun u hu => h u (List.mem_cons_of_mem _ hu)]

end Text

/-! ### Values that were parsed -/

/-- The value has nothing to trim and no line feed. -/
structure Instruction.Separable (x : Instruction) : Prop where
  trimmed : Trimmed x.value.toList
  lf_notMem : '\n' ∉ x.value.toList

theorem separable_of_mem_parse {content : String} {x : Instruction} (h : x ∈ parse content) :
    x.Separable := by
  obtain ⟨one, trimmed⟩ := Instruction.value_of_mem_parse h
  exact ⟨trimmed, one.lf_notMem⟩

/-! ### Merged values -/

/-- The values of the instructions with one keyword. -/
def valuesOf (k : Keyword) (xs : List Instruction) : List String :=
  (xs.filter (·.keyword == k)).map Instruction.value

theorem valuesOf_append (k : Keyword) (xs ys : List Instruction) :
    valuesOf k (xs ++ ys) = valuesOf k xs ++ valuesOf k ys := by
  rw [valuesOf, List.filter_append, List.map_append, valuesOf, valuesOf]

theorem valuesOf_of_eq {k : Keyword} {xs : List Instruction} (h : ∀ x ∈ xs, x.keyword = k) :
    valuesOf k xs = xs.map Instruction.value := by
  rw [valuesOf, List.filter_eq_self.mpr]
  simpa using h

theorem valuesOf_of_ne {k : Keyword} {xs : List Instruction} (h : ∀ x ∈ xs, x.keyword ≠ k) :
    valuesOf k xs = [] := by
  rw [valuesOf, List.filter_eq_nil_iff.mpr, List.map_nil]
  simpa using h

namespace Pass

variable {pass : Pass} {k : Keyword} {x y : Instruction} {block : List Instruction}

theorem separator_eq (pass : Pass) :
    ∃ tail, pass.separator.toList = [' ', '\\'] ++ '\n' :: tail := by
  cases pass <;> exact ⟨_, rfl⟩

theorem cutAt_value (pass : Pass) (h : x.Separable) : cutAt pass.separator x.value = [x.value] := by
  obtain ⟨tail, separator⟩ := pass.separator_eq
  rw [cutAt, cutFrom_of_notMem (c := '\n') (by simp [separator]) h.lf_notMem]
  simp

theorem cutAt_joined (pass : Pass) (ne : block ≠ []) (h : ∀ x ∈ block, x.Separable) :
    cutAt pass.separator (joined pass.separator block) = block.map Instruction.value := by
  obtain ⟨tail, separator⟩ := pass.separator_eq
  have values : block.map (fun x => strip x.value) = block.map Instruction.value :=
    List.map_congr_left fun x hx => strip_eq_self (h x hx).trimmed
  rw [cutAt, joined, values, String.toList_intercalate, separator,
    cutFrom_intercalate (by simp) (by simpa using ne)]
  · simp [Function.comp_def]
  · intro v hv
    simp only [List.map_map, List.mem_map, Function.comp_apply] at hv
    obtain ⟨x, hx, rfl⟩ := hv
    exact (h x hx).lf_notMem

/-- Cut again, what merging makes of a piece has the values of the piece. -/
theorem cut_valuesOf_of_rewrites (merging : ∀ x, pass.replacement? x = none)
    (h : pass.Rewrites block y) (values : ∀ x ∈ block, x.Separable) :
    (valuesOf k [y]).flatMap (cutAt pass.separator) = valuesOf k block := by
  -- A piece has one keyword, so it is shown whole or not at all.
  cases h with
  | keep =>
    by_cases hk : y.keyword = k
    · rw [valuesOf_of_eq (by simpa using hk)]
      simp [pass.cutAt_value (values y List.mem_cons_self)]
    · rw [valuesOf_of_ne (by simpa using hk)]
      rfl
  | replace found => simp [merging] at found
  | @merge first second rest _ same =>
    by_cases hk : first.keyword = k
    · rw [valuesOf_of_eq (by simpa [Instruction.write] using hk),
        valuesOf_of_eq fun x hx => (same x hx).trans hk]
      simpa [Instruction.write] using pass.cutAt_joined (List.cons_ne_nil _ _) values
    · rw [valuesOf_of_ne (by simpa [Instruction.write] using hk),
        valuesOf_of_ne fun x hx => (same x hx).trans_ne hk]
      rfl

theorem cut_valuesOf_apply (pass : Pass) (merging : ∀ x, pass.replacement? x = none) (k : Keyword)
    {xs : List Instruction} (values : ∀ x ∈ xs, x.Separable) :
    (valuesOf k (pass.apply xs).instructions).flatMap (cutAt pass.separator) = valuesOf k xs := by
  obtain ⟨pieces, rfl, made⟩ := pass.exists_rewrites xs
  generalize (pass.apply pieces.flatten).instructions = ys at made
  induction made with
  | nil => rfl
  | @cons piece y pieces ys here _ ih =>
    have first : ∀ x ∈ piece, x.Separable := fun x hx => values x (by simp [hx])
    have later : ∀ x ∈ pieces.flatten, x.Separable := fun x hx =>
      values x (by rw [List.flatten_cons]; exact List.mem_append_right _ hx)
    calc (valuesOf k (y :: ys)).flatMap (cutAt pass.separator)
        = (valuesOf k [y]).flatMap (cutAt pass.separator)
            ++ (valuesOf k ys).flatMap (cutAt pass.separator) := by
          rw [← List.flatMap_append, ← valuesOf_append, List.singleton_append]
      _ = valuesOf k (piece :: pieces).flatten := by
          rw [cut_valuesOf_of_rewrites merging here first, ih later, ← valuesOf_append,
            List.flatten_cons]

end Pass

/-- Merging leaves no two neighbours to merge, and cutting what it leaves at the separator gives
back the values of the RUNs, and likewise those of the settings. -/
theorem cut_merged_values (content : String) :
    (Apart .run (mergeRuns (parse content)).instructions ∧
      (valuesOf .run (mergeRuns (parse content)).instructions).flatMap (cutAt " \\\n    && ")
        = valuesOf .run (parse content)) ∧
      ∀ k ∈ [Keyword.env, .label, .arg],
        Apart k (mergeMetadata (parse content)).instructions ∧
          (valuesOf k (mergeMetadata (parse content)).instructions).flatMap (cutAt " \\\n    ")
            = valuesOf k (parse content) := by
  have separable : ∀ x ∈ parse content, x.Separable := fun x hx => separable_of_mem_parse hx
  have settings : ∀ k ∈ [Keyword.env, .label, .arg], isMetadata k = true := by decide
  refine ⟨⟨apart_mergeBlocks rfl _, ?_⟩, fun k hk => ⟨apart_mergeBlocks (settings k hk) _, ?_⟩⟩
  · exact Pass.mergeRuns.cut_valuesOf_apply (fun _ => rfl) .run separable
  · exact Pass.mergeMetadata.cut_valuesOf_apply (fun _ => rfl) k separable

/-- Values with a backslash or an `&&` of their own, and one that is empty. -/
theorem cut_merged_values_backslash :
    let xs := parse "RUN a\nRUN\nRUN && b\nENV c\nENV d \\\\ \n e\nRUN f"
    (valuesOf .run (mergeRuns xs).instructions).length = 2 ∧
      (valuesOf .run (mergeRuns xs).instructions).flatMap (cutAt " \\\n    && ")
        = ["a", "", "&& b", "f"] ∧
      valuesOf .env (mergeMetadata xs).instructions = ["c \\\n    d \\ e"] ∧
      (valuesOf .env (mergeMetadata xs).instructions).flatMap (cutAt " \\\n    ")
        = ["c", "d \\ e"] := by
  intro xs
  obtain ⟨⟨-, commands⟩, settings⟩ :=
    cut_merged_values "RUN a\nRUN\nRUN && b\nENV c\nENV d \\\\ \n e\nRUN f"
  refine ⟨by decide +kernel, commands.trans (by decide +kernel), by decide +kernel, ?_⟩
  exact (settings .env (by decide)).2.trans (by decide +kernel)

end Dockerfile
