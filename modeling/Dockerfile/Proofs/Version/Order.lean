import Mathlib.Data.List.DropRight
import Mathlib.Data.List.GetD
import Mathlib.Data.Nat.Find
import Dockerfile.Proofs.Version

/-!
The order of versions, whatever their lengths and the signs of their parts.

Versions compare as sequences that go on with zeros after the last part, and such a sequence is
settled by the parts up to the last one that is not zero (`significant_eq_iff`). So two versions of
which neither is higher differ in zeros at the end alone (`tied_iff_part`), and versions compare as
the lists that zeros fill up to a common length (`isHigher_iff_padded`).
-/

namespace Dockerfile.Version

variable {a b v : Version} {i n : Nat}

/-! ### Zeros at the end -/

theorem part_eq_getElem (h : i < v.length) : part v i = v[i] :=
  List.getD_eq_getElem _ _ h

theorem part_eq_zero (h : v.length ≤ i) : part v i = 0 :=
  List.getD_eq_default _ _ h

@[simp]
theorem part_append_replicate (v : Version) (n i : Nat) :
    part (v ++ List.replicate n 0) i = part v i := by
  rcases Nat.lt_or_ge i v.length with within | beyond
  · exact List.getD_append _ _ _ _ within
  · rw [part_eq_zero beyond, part, List.getD_append_right _ _ _ _ beyond,
      List.getD_eq_getElem?_getD, List.getElem?_replicate]
    split <;> rfl

/-- A version without the zeros at its end. -/
def significant (v : Version) : Version :=
  v.rdropWhile (· == 0)

theorem exists_eq_significant_append (v : Version) :
    ∃ n, v = significant v ++ List.replicate n 0 := by
  have zeros : v.rtakeWhile (· == 0) = List.replicate (v.rtakeWhile (· == 0)).length 0 :=
    List.eq_replicate_iff.mpr ⟨rfl, fun n hn => by simpa using List.mem_rtakeWhile_imp hn⟩
  refine ⟨(v.rtakeWhile (· == 0)).length, ?_⟩
  rw [← zeros]
  exact (List.rdropWhile_append_rtakeWhile ..).symm

@[simp]
theorem part_significant (v : Version) (i : Nat) : part (significant v) i = part v i := by
  obtain ⟨n, split⟩ := exists_eq_significant_append v
  calc part (significant v) i = part (significant v ++ List.replicate n 0) i :=
        (part_append_replicate _ n i).symm
    _ = part v i := by rw [← split]

/-- The last significant part is not zero, so no version with the same parts is shorter. -/
theorem length_significant_le (same : ∀ i, part a i = part b i) :
    (significant a).length ≤ b.length := by
  by_contra longer
  have ne : significant a ≠ [] := List.ne_nil_of_length_pos (by omega)
  have kept : (significant a).getLast ne ≠ 0 := fun zero =>
    List.rdropWhile_last_not _ a ne (beq_iff_eq.mpr zero)
  rw [List.getLast_eq_getElem, ← part_eq_getElem, part_significant, same] at kept
  exact kept (part_eq_zero (by omega))

theorem significant_eq_iff : significant a = significant b ↔ ∀ i, part a i = part b i := by
  constructor
  · intro same i
    rw [← part_significant a, same, part_significant]
  · intro same
    have atMost : (significant a).length ≤ (significant b).length :=
      length_significant_le (by simpa using same)
    have atLeast : (significant b).length ≤ (significant a).length :=
      length_significant_le (by simpa using fun i => (same i).symm)
    refine List.ext_getElem (Nat.le_antisymm atMost atLeast) fun i hi hi' => ?_
    rw [← part_eq_getElem hi, ← part_eq_getElem hi', part_significant, part_significant, same]

/-! ### Ties -/

/-- Neither version is higher than the other. -/
def Tied (a b : Version) : Prop :=
  a.isHigher b = false ∧ b.isHigher a = false

/-- Where the parts differ, they differ first in some place, and there one version is higher. -/
theorem tied_iff_part : Tied a b ↔ ∀ i, part a i = part b i := by
  simp only [Tied, ← Bool.not_eq_true, isHigher_iff]
  constructor
  · rintro ⟨notAbove, notBelow⟩
    by_contra differ
    push Not at differ
    have before : ∀ j < Nat.find differ, part a j = part b j := fun j hj => by
      simpa using Nat.find_min differ hj
    rcases Int.lt_or_gt_of_ne (Nat.find_spec differ) with less | greater
    · exact notBelow ⟨_, less, fun j hj => (before j hj).symm⟩
    · exact notAbove ⟨_, greater, before⟩
  · intro same
    exact ⟨fun ⟨i, higher, _⟩ => absurd (same i) (by omega),
      fun ⟨i, higher, _⟩ => absurd (same i) (by omega)⟩

theorem tied_equivalence : Equivalence Tied where
  refl _ := tied_iff_part.mpr fun _ => rfl
  symm h := ⟨h.2, h.1⟩
  trans hab hbc := tied_iff_part.mpr fun i =>
    (tied_iff_part.mp hab i).trans (tied_iff_part.mp hbc i)

/-! ### Comparison at a common length -/

/-- A version with zeros at its end, up to the given length. -/
def padded (n : Nat) (v : Version) : Version :=
  v ++ List.replicate (n - v.length) 0

theorem length_padded (h : v.length ≤ n) : (padded n v).length = n := by
  simp only [padded, List.length_append, List.length_replicate]
  omega

/-- The verdict depends on the parts alone. -/
theorem isHigher_congr {a' b' : Version} (ha : ∀ i, part a i = part a' i)
    (hb : ∀ i, part b i = part b' i) : a.isHigher b = a'.isHigher b' := by
  rw [Bool.eq_iff_iff, isHigher_iff, isHigher_iff]
  simp only [ha, hb]

/-- Versions of one length compare as lists. -/
theorem isHigher_iff_lt (same : a.length = b.length) : a.isHigher b = true ↔ b < a := by
  induction a generalizing b with
  | nil =>
    rw [List.length_nil, eq_comm, List.length_eq_zero_iff] at same
    simp [same, isHigher]
  | cons m a ih =>
    cases b with
    | nil => cases same
    | cons n b =>
      rw [isHigher, Bool.or_eq_true, Bool.and_eq_true, decide_eq_true_eq, beq_iff_eq,
        ih (Nat.succ.inj same), List.cons_lt_cons_iff, @eq_comm _ m]

theorem isHigher_iff_padded (ha : a.length ≤ n) (hb : b.length ≤ n) :
    a.isHigher b = true ↔ padded n b < padded n a := by
  rw [← isHigher_iff_lt ((length_padded ha).trans (length_padded hb).symm),
    isHigher_congr (fun i => (part_append_replicate a _ i).symm)
      fun i => (part_append_replicate b _ i).symm]
  rfl

/-- Being higher is a strict weak order of versions of any lengths and parts. Two versions tie
exactly if they are the same without the zeros at their ends, so ties are an equivalence and zeros
at the end change no verdict; filled up to a common length, versions compare as lists. -/
theorem isHigher_strictWeakOrder :
    (∀ a : Version, a.isHigher a = false) ∧
    (∀ a b : Version, a.isHigher b = true → b.isHigher a = false) ∧
    (∀ a b c : Version, a.isHigher b = true → b.isHigher c = true → a.isHigher c = true) ∧
    (∀ a b : Version, Tied a b ↔ significant a = significant b) ∧
    Equivalence Tied ∧
    (∀ (a b : Version) (m n : Nat),
      isHigher (a ++ List.replicate m 0) (b ++ List.replicate n 0) = a.isHigher b) ∧
    (∀ a b : Version, a.isHigher b = true ↔
      padded (max a.length b.length) b < padded (max a.length b.length) a) := by
  have irrefl : ∀ a : Version, a.isHigher a = false := fun a => (tied_equivalence.refl a).1
  refine ⟨irrefl, ?_, fun a b c => isHigher_trans, ?_, tied_equivalence, ?_, ?_⟩
  · intro a b above
    refine Bool.eq_false_iff.mpr fun below => ?_
    exact Bool.false_ne_true ((irrefl a).symm.trans (isHigher_trans above below))
  · intro a b
    rw [tied_iff_part, significant_eq_iff]
  · intro a b m n
    exact isHigher_congr (part_append_replicate a m) (part_append_replicate b n)
  · intro a b
    exact isHigher_iff_padded (Nat.le_max_left ..) (Nat.le_max_right ..)

end Dockerfile.Version
