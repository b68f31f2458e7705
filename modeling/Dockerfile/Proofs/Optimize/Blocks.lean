import Mathlib.Data.List.Chain
import Mathlib.Data.List.SplitBy
import Dockerfile.Optimize

/-!
Blocks, and the lists that merging leaves.

The blocks of a list are not empty, each has one keyword, neighbours have different ones, and in a
row they are the list again. `Apart k` says of a list that no two neighbours have the keyword `k`.

* `apart_mergeBlocks` — after merging, two neighbours never have the same keyword that can be
  merged.
* `mergeBlocks_changes_eq_nil_iff` — nothing is merged exactly where that holds already, and then
  `mergeBlocks_eq_self` gives the list back.
-/

namespace Dockerfile.Optimize

/-- No two neighbours have the keyword `k`. -/
def Apart (k : Keyword) (xs : List Instruction) : Prop :=
  xs.IsChain fun a b => ¬ (a.keyword = k ∧ b.keyword = k)

instance (k : Keyword) (xs : List Instruction) : Decidable (Apart k xs) :=
  inferInstanceAs (Decidable (xs.IsChain _))

/-- Every instruction of the one list has another keyword than every instruction of the other. -/
def Differ (a b : List Instruction) : Prop :=
  ∀ x ∈ a, ∀ y ∈ b, x.keyword ≠ y.keyword

/-! ### The blocks of a list -/

@[simp]
theorem flatten_blocks (xs : List Instruction) : (blocks xs).flatten = xs :=
  List.flatten_splitBy _ xs

theorem nil_notMem_blocks (xs : List Instruction) : [] ∉ blocks xs :=
  List.nil_notMem_splitBy _ xs

theorem keyword_eq_of_isChain {block : List Instruction}
    (h : block.IsChain fun x y => x.keyword == y.keyword) {x y : Instruction} (hx : x ∈ block)
    (hy : y ∈ block) : x.keyword = y.keyword := by
  have toHead : ∀ {head : Instruction} {rest : List Instruction},
      (head :: rest).IsChain (fun x y => x.keyword == y.keyword) →
        ∀ z ∈ head :: rest, z.keyword = head.keyword := by
    intro head rest chain
    induction rest generalizing head with
    | nil => simp
    | cons next rest ih =>
      obtain ⟨same, later⟩ := List.isChain_cons_cons.mp chain
      intro z hz
      rcases List.mem_cons.mp hz with rfl | hz
      · rfl
      · exact (ih later z hz).trans (by simpa using (beq_iff_eq.mp same).symm)
  cases block with
  | nil => simp at hx
  | cons head rest => exact (toHead h x hx).trans (toHead h y hy).symm

theorem keyword_eq_of_mem_block {xs block : List Instruction} (h : block ∈ blocks xs)
    {x y : Instruction} (hx : x ∈ block) (hy : y ∈ block) : x.keyword = y.keyword :=
  keyword_eq_of_isChain (List.isChain_of_mem_splitBy h) hx hy

/-- Where one block ends and the next starts, the keyword changes. -/
theorem blocks_differ (xs : List Instruction) : (blocks xs).IsChain Differ := by
  refine (List.isChain_getLast_head_splitBy _ xs).imp_of_mem_imp ?_
  rintro a b ha hb ⟨hane, hbne, change⟩ x hx y hy heq
  have hlast := keyword_eq_of_mem_block ha hx (List.getLast_mem hane)
  have hhead := keyword_eq_of_mem_block hb hy (List.head_mem hbne)
  simp [← hlast, ← hhead, heq] at change

/-! ### Neighbours with one keyword -/

theorem Apart.part {k : Keyword} {xs ys : List Instruction} (h : Apart k xs) (hys : ys <:+: xs) :
    Apart k ys :=
  List.IsChain.infix h hys

theorem apart_of_forall {k : Keyword} {xs : List Instruction} (h : ∀ x ∈ xs, x.keyword ≠ k) :
    Apart k xs := by
  induction xs with
  | nil => exact List.isChain_nil
  | cons x xs ih =>
    refine List.isChain_cons.mpr ⟨fun y _ both => h x List.mem_cons_self both.1, ?_⟩
    exact ih fun y hy => h y (List.mem_cons_of_mem _ hy)

theorem apart_flatten {k : Keyword} {bs : List (List Instruction)} (ne : [] ∉ bs)
    (inner : ∀ b ∈ bs, Apart k b) (outer : bs.IsChain Differ) : Apart k bs.flatten := by
  refine (List.isChain_flatten ne).mpr ⟨inner, outer.imp ?_⟩
  intro a b differ x hx y hy both
  exact differ x (List.mem_of_mem_getLast? hx) y (List.mem_of_mem_head? hy)
    (both.1.trans both.2.symm)

/-! ### Merging -/

section Merge

variable {mergeable : Keyword → Bool} {separator : String}
  {change : Keyword → Nat → Int → Change}

theorem mergeBlock_of_mergeable {first second : Instruction} {rest : List Instruction}
    (h : mergeable first.keyword = true) :
    mergeBlock mergeable separator change (first :: second :: rest) =
      ⟨[.write first.line first.keyword (joined separator (first :: second :: rest))],
        [change first.keyword (rest.length + 2) first.line]⟩ := by
  simp [mergeBlock, h]

theorem mergeBlock_of_not_mergeable {block : List Instruction}
    (h : ∀ first second rest, block = first :: second :: rest → mergeable first.keyword = false) :
    mergeBlock mergeable separator change block = ⟨block, []⟩ := by
  match block with
  | [] => rfl
  | [_] => rfl
  | first :: second :: rest => simp [mergeBlock, h first second rest rfl]

/-- A block is merged into one instruction, or it stays and nothing is logged. -/
theorem mergeBlock_cases (mergeable : Keyword → Bool) (separator : String)
    (change : Keyword → Nat → Int → Change) (block : List Instruction) :
    (∃ first second rest, block = first :: second :: rest ∧ mergeable first.keyword = true ∧
      mergeBlock mergeable separator change block =
        ⟨[.write first.line first.keyword (joined separator block)],
          [change first.keyword (rest.length + 2) first.line]⟩) ∨
    (∀ first second rest, block = first :: second :: rest → mergeable first.keyword = false) ∧
      mergeBlock mergeable separator change block = ⟨block, []⟩ := by
  by_cases h : ∃ first second rest, block = first :: second :: rest ∧ mergeable first.keyword = true
  · obtain ⟨first, second, rest, rfl, hm⟩ := h
    exact Or.inl ⟨first, second, rest, rfl, hm, mergeBlock_of_mergeable hm⟩
  · have unmerged : ∀ first second rest, block = first :: second :: rest →
        mergeable first.keyword = false := by
      intro first second rest heq
      by_contra hm
      exact h ⟨first, second, rest, heq, by simpa using hm⟩
    exact Or.inr ⟨unmerged, mergeBlock_of_not_mergeable unmerged⟩

/-- A block that is not merged has no two neighbours that could be. -/
theorem apart_of_unmerged {xs block : List Instruction} (hb : block ∈ blocks xs)
    (h : ∀ first second rest, block = first :: second :: rest → mergeable first.keyword = false)
    {k : Keyword} (hk : mergeable k = true) : Apart k block := by
  match block with
  | [] => exact List.isChain_nil
  | [_] => exact List.isChain_singleton _
  | first :: second :: rest =>
    apply apart_of_forall
    rintro x hx rfl
    rw [keyword_eq_of_mem_block hb hx List.mem_cons_self, h first second rest rfl] at hk
    exact Bool.false_ne_true hk

theorem exists_keyword_eq_of_mem_mergeBlock {block : List Instruction} {y : Instruction}
    (hy : y ∈ (mergeBlock mergeable separator change block).instructions) :
    ∃ x ∈ block, y.keyword = x.keyword := by
  rcases mergeBlock_cases mergeable separator change block with
    ⟨first, second, rest, rfl, -, heq⟩ | ⟨-, heq⟩
  · rw [heq, List.mem_singleton] at hy
    exact ⟨first, List.mem_cons_self, by rw [hy]; rfl⟩
  · rw [heq] at hy
    exact ⟨y, hy, rfl⟩

theorem mergeBlock_instructions_ne_nil {block : List Instruction} (h : block ≠ []) :
    (mergeBlock mergeable separator change block).instructions ≠ [] := by
  rcases mergeBlock_cases mergeable separator change block with
    ⟨_, _, _, -, -, heq⟩ | ⟨-, heq⟩
  · simp [heq]
  · simpa [heq] using h

theorem mergeBlocks_instructions (xs : List Instruction) :
    (mergeBlocks mergeable separator change xs).instructions =
      ((blocks xs).map fun b =>
        (mergeBlock mergeable separator change b).instructions).flatten := by
  simp [mergeBlocks, List.flatMap_def, Function.comp_def]

theorem mergeBlocks_changes (xs : List Instruction) :
    (mergeBlocks mergeable separator change xs).changes =
      ((blocks xs).map fun b => (mergeBlock mergeable separator change b).changes).flatten := by
  simp [mergeBlocks, List.flatMap_def, Function.comp_def]

/-- After merging, no two neighbours share a keyword that can be merged. -/
theorem apart_mergeBlocks {k : Keyword} (hk : mergeable k = true) (xs : List Instruction) :
    Apart k (mergeBlocks mergeable separator change xs).instructions := by
  rw [mergeBlocks_instructions]
  apply apart_flatten
  · intro hnil
    obtain ⟨block, hb, heq⟩ := List.mem_map.mp hnil
    exact mergeBlock_instructions_ne_nil (fun h => nil_notMem_blocks xs (h ▸ hb)) heq
  · intro b hb
    obtain ⟨block, hblock, rfl⟩ := List.mem_map.mp hb
    rcases mergeBlock_cases mergeable separator change block with
      ⟨_, _, _, -, -, heq⟩ | ⟨unmerged, heq⟩
    · rw [heq]
      exact List.isChain_singleton _
    · rw [heq]
      exact apart_of_unmerged hblock unmerged hk
  · refine (List.isChain_map _).mpr ((blocks_differ xs).imp ?_)
    -- A block keeps its keyword, so blocks that differed still differ.
    intro a b differ x hx y hy
    obtain ⟨x', hx', hxk⟩ := exists_keyword_eq_of_mem_mergeBlock hx
    obtain ⟨y', hy', hyk⟩ := exists_keyword_eq_of_mem_mergeBlock hy
    rw [hxk, hyk]
    exact differ x' hx' y' hy'

/-- Nothing is merged exactly where no two neighbours share a keyword that can be merged. -/
theorem mergeBlocks_changes_eq_nil_iff {xs : List Instruction} :
    (mergeBlocks mergeable separator change xs).changes = [] ↔
      ∀ k, mergeable k = true → Apart k xs := by
  rw [mergeBlocks_changes, List.flatten_eq_nil_iff]
  constructor
  · intro quiet k hk
    rw [← flatten_blocks xs]
    refine apart_flatten (nil_notMem_blocks xs) ?_ (blocks_differ xs)
    intro block hb
    have hquiet := quiet _ (List.mem_map_of_mem hb)
    rcases mergeBlock_cases mergeable separator change block with
      ⟨_, _, _, -, -, heq⟩ | ⟨unmerged, -⟩
    · simp [heq] at hquiet
    · exact apart_of_unmerged hb unmerged hk
  · intro apart log hlog
    obtain ⟨block, hb, rfl⟩ := List.mem_map.mp hlog
    rcases mergeBlock_cases mergeable separator change block with
      ⟨first, second, rest, rfl, hm, -⟩ | ⟨-, heq⟩
    · have inside : Apart first.keyword (first :: second :: rest) := by
        refine (apart _ hm).part ?_
        rw [← flatten_blocks xs]
        exact List.infix_of_mem_flatten hb
      have same := keyword_eq_of_mem_block hb (x := second) (y := first) (by simp) (by simp)
      exact absurd ⟨rfl, same⟩ (List.isChain_cons_cons.mp inside).1
    · rw [heq]

theorem mergeBlocks_eq_self {xs : List Instruction}
    (h : (mergeBlocks mergeable separator change xs).changes = []) :
    mergeBlocks mergeable separator change xs = ⟨xs, []⟩ := by
  have kept : ∀ b ∈ blocks xs, (mergeBlock mergeable separator change b).instructions = b := by
    intro block hb
    rw [mergeBlocks_changes, List.flatten_eq_nil_iff] at h
    have hquiet := h _ (List.mem_map_of_mem hb)
    rcases mergeBlock_cases mergeable separator change block with
      ⟨_, _, _, -, -, heq⟩ | ⟨-, heq⟩
    · simp [heq] at hquiet
    · rw [heq]
  have same : (mergeBlocks mergeable separator change xs).instructions = xs := by
    rw [mergeBlocks_instructions, List.map_congr_left kept, List.map_id', flatten_blocks]
  calc mergeBlocks mergeable separator change xs
      = ⟨(mergeBlocks mergeable separator change xs).instructions,
          (mergeBlocks mergeable separator change xs).changes⟩ := rfl
    _ = ⟨xs, []⟩ := by rw [same, h]

end Merge

end Dockerfile.Optimize
