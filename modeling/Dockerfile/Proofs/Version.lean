import Mathlib.Data.List.TakeWhile
import Dockerfile.Rule.NewerTag
import Dockerfile.Proofs.Related

/-!
Versions: how they compare, and how they are read off a tag.

A version is higher than another if it is larger in the first part in which the two differ, where a
missing part counts as zero (`isHigher_iff`). As lists, versions compare otherwise: of two that
differ in zeros at the end only, the longer is greater. The two orders are not at odds, as long as
no part is negative: what is higher is greater (`lt_of_isHigher`).

A tag starts with a version if it starts with a digit. The version goes on as long as digits follow,
and after a point that digits follow (`leadingParts_append`, `exists_of_leadingParts_eq_cons`). The
versions that are read have no negative part (`nonneg_of_leading?`). A part with more digits is
another number, unless all digits are zeros (`numeral_append_eq_iff`).
-/

namespace Dockerfile.Version

open Text

variable {a b c : Version} {tag : String} {v : Version} {cs d rest : List Char}
  {ps : List (List Char)}

/-! ### Order -/

/-- A part of a version, zero where it has none. -/
def part (v : Version) (i : Nat) : Int :=
  v.getD i 0

@[simp]
theorem part_nil (i : Nat) : part [] i = 0 := by
  simp [part]

@[simp]
theorem part_cons_zero (n : Int) (v : Version) : part (n :: v) 0 = n := by
  simp [part]

@[simp]
theorem part_cons_succ (n : Int) (v : Version) (i : Nat) : part (n :: v) (i + 1) = part v i := by
  simp [part]

/-- The first place where two sequences differ is the first place of all, or comes after it. -/
theorem exists_first_iff {f g : Nat → Int} :
    (∃ i, g i < f i ∧ ∀ j < i, f j = g j) ↔
      g 0 < f 0 ∨ f 0 = g 0 ∧ ∃ i, g (i + 1) < f (i + 1) ∧ ∀ j < i, f (j + 1) = g (j + 1) := by
  constructor
  · rintro ⟨i, larger, same⟩
    cases i with
    | zero => exact Or.inl larger
    | succ i =>
      refine Or.inr ⟨same 0 (by omega), i, larger, fun j hj => same (j + 1) (by omega)⟩
  · rintro (larger | ⟨first, i, larger, same⟩)
    · exact ⟨0, larger, fun j hj => absurd hj (by omega)⟩
    · refine ⟨i + 1, larger, fun j hj => ?_⟩
      cases j with
      | zero => exact first
      | succ j => exact same j (by omega)

/-- A version is higher if it is larger in the first part in which the two differ. -/
theorem isHigher_iff :
    a.isHigher b = true ↔ ∃ i, part b i < part a i ∧ ∀ j < i, part a j = part b j := by
  induction a generalizing b with
  | nil =>
    induction b with
    | nil => simp [isHigher]
    | cons n b ih =>
      rw [exists_first_iff, isHigher, Bool.or_eq_true, Bool.and_eq_true, decide_eq_true_eq,
        beq_iff_eq, ih, @eq_comm _ n]
      simp only [part_nil, part_cons_zero, part_cons_succ]
  | cons m a ih =>
    rw [exists_first_iff]
    cases b with
    | nil =>
      rw [isHigher, Bool.or_eq_true, Bool.and_eq_true, decide_eq_true_eq, beq_iff_eq, ih]
      simp only [part_nil, part_cons_zero, part_cons_succ]
    | cons n b =>
      rw [isHigher, Bool.or_eq_true, Bool.and_eq_true, decide_eq_true_eq, beq_iff_eq, ih]
      simp only [part_cons_zero, part_cons_succ]

theorem isHigher_trans (hab : a.isHigher b = true) (hbc : b.isHigher c = true) :
    a.isHigher c = true := by
  rw [isHigher_iff] at *
  obtain ⟨i, hi, before⟩ := hab
  obtain ⟨j, hj, before'⟩ := hbc
  rcases Nat.lt_trichotomy i j with earlier | rfl | later
  · refine ⟨i, by rwa [← before' i earlier], fun k hk => ?_⟩
    rw [before k hk, before' k (by omega)]
  · exact ⟨i, Int.lt_trans hj hi, fun k hk => (before k hk).trans (before' k hk)⟩
  · refine ⟨j, by rwa [before j later], fun k hk => ?_⟩
    rw [before k (by omega), before' k hk]

/-- Of versions without negative parts, the higher one is the greater one as a list. -/
theorem lt_of_isHigher (parts : ∀ n ∈ b, 0 ≤ n) (h : a.isHigher b = true) : b < a := by
  induction a generalizing b with
  | nil =>
    induction b with
    | nil => simp [isHigher] at h
    | cons n b ih =>
      have nonneg : 0 ≤ n := parts n List.mem_cons_self
      have later : isHigher [] b = true := by
        simp only [isHigher, Bool.or_eq_true, Bool.and_eq_true, decide_eq_true_eq] at h
        exact (h.resolve_left (by omega)).2
      exact absurd (ih (fun k hk => parts k (List.mem_cons_of_mem _ hk)) later)
        (List.not_lt_nil b)
  | cons m a ih =>
    cases b with
    | nil => exact List.nil_lt_cons m a
    | cons n b =>
      simp only [isHigher, Bool.or_eq_true, Bool.and_eq_true, decide_eq_true_eq, beq_iff_eq] at h
      rw [List.cons_lt_cons_iff]
      refine h.imp_right fun both => ⟨both.1.symm, ?_⟩
      exact ih (fun k hk => parts k (List.mem_cons_of_mem _ hk)) both.2

/-! ### Reading -/

/-- The parts after a point, if the text starts with one. -/
def afterPoint : List Char → List (List Char)
  | '.' :: rest => leadingParts rest
  | _ => []

theorem isDecimal_point : isDecimal '.' = false := by
  decide

theorem leadingParts_of_head (h : ∀ c ∈ cs.head?, isDecimal c = false) : leadingParts cs = [] := by
  cases cs with
  | nil => rfl
  | cons c cs =>
    have hc : isDecimal c = false := h c rfl
    by_cases point : c = '.'
    · have start : ('.' :: cs).takeWhile (fun c => isDecimal c || c == '.')
          = [] ++ '.' :: cs.takeWhile fun c => isDecimal c || c == '.' := by simp
      rw [point, leadingParts, start, List.splitOn_append_cons_self_of_not_mem (by simp)]
      rfl
    · simp [leadingParts, hc, point]

theorem point_notMem (digits : ∀ c ∈ d, isDecimal c = true) : '.' ∉ d := by
  intro point
  cases isDecimal_point.symm.trans (digits '.' point)

/-- The digits that a text starts with are the first part, and after a point come the others. -/
theorem leadingParts_append (ne : d ≠ []) (digits : ∀ c ∈ d, isDecimal c = true)
    (stop : ∀ c ∈ rest.head?, isDecimal c = false) :
    leadingParts (d ++ rest) = d :: afterPoint rest := by
  have kept : ∀ c ∈ d, (isDecimal c || c == '.') = true := fun c hc => by simp [digits c hc]
  have nowhere := point_notMem digits
  rw [leadingParts, List.takeWhile_append_of_pos kept]
  cases rest with
  | nil => simp [afterPoint, List.splitOn_eq_singleton nowhere, ne]
  | cons c rest =>
    by_cases point : c = '.'
    · subst point
      have more : ('.' :: rest).takeWhile (fun c => isDecimal c || c == '.')
          = '.' :: rest.takeWhile fun c => isDecimal c || c == '.' := by simp
      rw [more, List.splitOn_append_cons_self_of_not_mem nowhere]
      simp [afterPoint, leadingParts, ne]
    · have none : (c :: rest).takeWhile (fun c => isDecimal c || c == '.') = [] := by
        simp [stop c rfl, point]
      rw [none, List.append_nil, List.splitOn_eq_singleton nowhere]
      simp [afterPoint, point, ne]

/-- The digits that a text starts with, and the text after them. -/
theorem exists_digits_append (cs : List Char) :
    ∃ d rest, cs = d ++ rest ∧ (∀ c ∈ d, isDecimal c = true) ∧
      ∀ c ∈ rest.head?, isDecimal c = false := by
  refine ⟨cs.takeWhile isDecimal, cs.dropWhile isDecimal, List.takeWhile_append_dropWhile.symm,
    fun c hc => List.mem_takeWhile_imp hc, fun c hc => ?_⟩
  have stop := List.head?_dropWhile_not isDecimal cs
  rw [Option.mem_def.mp hc] at stop
  simpa using stop

/-- A text with a first part starts with the digits of that part. -/
theorem exists_of_leadingParts_eq_cons (h : leadingParts cs = d :: ps) :
    ∃ rest, cs = d ++ rest ∧ d ≠ [] ∧ (∀ c ∈ d, isDecimal c = true) ∧
      (∀ c ∈ rest.head?, isDecimal c = false) ∧ afterPoint rest = ps := by
  obtain ⟨first, rest, rfl, digits, stop⟩ := exists_digits_append cs
  by_cases nothing : first = []
  · rw [nothing, List.nil_append, leadingParts_of_head stop] at h
    cases h
  · rw [leadingParts_append nothing digits stop, List.cons_eq_cons] at h
    obtain ⟨rfl, rfl⟩ := h
    exact ⟨rest, rfl, nothing, digits, stop, rfl⟩

theorem exists_of_afterPoint_eq_cons (h : afterPoint cs = d :: ps) : ∃ rest, cs = '.' :: rest := by
  unfold afterPoint at h
  split at h
  · exact ⟨_, rfl⟩
  · cases h

/-- No part of the version of a tag is too long to be read. -/
def Readable (tag : String) : Prop :=
  ∀ digits ∈ leadingParts tag.toList, digits.length ≤ Fault.maxDigits

instance (tag : String) : Decidable (Readable tag) :=
  List.decidableBAll _ (leadingParts tag.toList)

/-- The version with the given digits. -/
def ofParts (ps : List (List Char)) : Version :=
  ps.map fun digits => (numeral digits : Int)

theorem readPart_eq_ok_iff {n : Int} :
    readPart d = .ok n ↔ d.length ≤ Fault.maxDigits ∧ (numeral d : Int) = n := by
  unfold readPart
  split
  · next long => simp; omega
  · next short => simp; omega

theorem mapM_readPart_eq_ok_iff :
    ps.mapM readPart = .ok v ↔
      (∀ digits ∈ ps, digits.length ≤ Fault.maxDigits) ∧ ofParts ps = v := by
  rw [mapM_eq_ok_iff]
  simp only [readPart_eq_ok_iff]
  induction ps generalizing v with
  | nil => simp [ofParts, eq_comm]
  | cons d ps ih =>
    rw [List.forall₂_cons_left_iff, List.forall_mem_cons]
    simp only [ih]
    constructor
    · rintro ⟨n, w, ⟨short, rfl⟩, ⟨later, rfl⟩, rfl⟩
      exact ⟨⟨short, later⟩, rfl⟩
    · rintro ⟨⟨short, later⟩, rfl⟩
      exact ⟨_, _, ⟨short, rfl⟩, ⟨later, rfl⟩, rfl⟩

theorem leading?_eq_some_iff :
    leading? tag = .ok (some v) ↔ leadingParts tag.toList ≠ [] ∧ Readable tag ∧
      ofParts (leadingParts tag.toList) = v := by
  unfold leading? Readable
  split
  · next none => simp [none]
  · next ps ne =>
    rw [map_eq_ok_iff]
    simp only [mapM_readPart_eq_ok_iff, Option.some.injEq, exists_eq_right]
    exact ⟨fun h => ⟨ne, h⟩, fun h => h.2⟩

theorem exists_leading?_of_readable (h : Readable tag) : ∃ found, leading? tag = .ok found := by
  by_cases nothing : leadingParts tag.toList = []
  · exact ⟨none, by simp [leading?, nothing]⟩
  · exact ⟨_, leading?_eq_some_iff.mpr ⟨nothing, h, rfl⟩⟩

theorem nonneg_of_leading? (h : leading? tag = .ok (some v)) : ∀ n ∈ v, 0 ≤ n := by
  obtain ⟨-, -, rfl⟩ := leading?_eq_some_iff.mp h
  intro n hn
  obtain ⟨digits, -, rfl⟩ := List.mem_map.mp hn
  exact Int.natCast_nonneg _

/-! ### Digits -/

theorem le_foldl_digits (n : Nat) (d : List Char) :
    n ≤ d.foldl (fun n c => 10 * n + (digitValue? c).getD 0) n := by
  induction d generalizing n with
  | nil => exact Nat.le_refl n
  | cons c d ih =>
    have later := ih (10 * n + (digitValue? c).getD 0)
    rw [List.foldl_cons]
    omega

theorem numeral_append (d e : List Char) :
    numeral (d ++ e) = e.foldl (fun n c => 10 * n + (digitValue? c).getD 0) (numeral d) :=
  List.foldl_append

theorem numeral_le_append (d e : List Char) : numeral d ≤ numeral (d ++ e) := by
  rw [numeral_append]
  exact le_foldl_digits (numeral d) e

/-- More digits make another number, unless all are zeros. -/
theorem numeral_append_eq_iff (d e : List Char) :
    numeral (d ++ e) = numeral d ↔ e = [] ∨ numeral d = 0 ∧ numeral e = 0 := by
  constructor
  · intro same
    cases e with
    | nil => exact Or.inl rfl
    | cons c e =>
      have grown := le_foldl_digits (10 * numeral d + (digitValue? c).getD 0) e
      rw [← List.foldl_cons (f := fun n c => 10 * n + (digitValue? c).getD 0), ← numeral_append,
        same] at grown
      have zero : numeral d = 0 := by omega
      refine Or.inr ⟨zero, ?_⟩
      rwa [numeral_append, zero] at same
  · rintro (rfl | ⟨hd, he⟩)
    · rw [List.append_nil]
    · rw [numeral_append, hd]
      exact he

end Dockerfile.Version
