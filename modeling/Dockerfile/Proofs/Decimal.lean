import Mathlib.Tactic.Ring
import Dockerfile.Decimal

/-!
Rounding to the nearest.

`Nearest` says which whole number is nearest to a quotient without computing it; `roundDiv` gives the
one number that is (`roundDiv_eq_iff`). A double rounded to two decimals is the double for a whole
number of hundredths, the nearest to its exact value (`Binary.ToHundredths`).
-/

namespace Dockerfile.Decimal

variable {num den m n : Nat}

/-- No whole number is nearer to `num / den` than `n`, and `n` is even if another one is as near. -/
structure Nearest (num den n : Nat) : Prop where
  below : 2 * (n * den) ≤ 2 * num + den
  above : 2 * num ≤ 2 * (n * den) + den
  even : 2 * (n * den) = 2 * num + den ∨ 2 * num = 2 * (n * den) + den → n % 2 = 0

theorem Nearest.le (hm : Nearest num den m) (hn : Nearest num den n) (pos : 0 < den) : m ≤ n := by
  by_contra! lt
  have step : n * den + den ≤ m * den := by
    rw [← Nat.succ_mul]
    exact Nat.mul_le_mul_right den lt
  -- the quotient is halfway between the two, so both of them are even and one after the other
  have evenM := hm.even (Or.inl (by have := hm.below; have := hn.above; omega))
  have evenN := hn.even (Or.inr (by have := hm.below; have := hn.above; omega))
  have next : m * den = (n + 1) * den := by
    have := hm.below
    have := hn.above
    rw [Nat.succ_mul]
    omega
  have := Nat.eq_of_mul_eq_mul_right pos next
  omega

theorem nearest_roundDiv (num : Nat) (pos : 0 < den) : Nearest num den (roundDiv num den) := by
  have whole := Nat.div_add_mod' num den
  have part := Nat.mod_lt num pos
  have next : (num / den + 1) * den = num / den * den + den := Nat.succ_mul _ _
  simp only [roundDiv]
  split_ifs with less more tie
  · exact ⟨by omega, by omega, by omega⟩
  · exact ⟨by omega, by omega, by omega⟩
  · exact ⟨by omega, by omega, fun _ => tie⟩
  · exact ⟨by omega, by omega, fun _ => by omega⟩

theorem roundDiv_eq_iff (pos : 0 < den) : roundDiv num den = n ↔ Nearest num den n := by
  constructor
  · rintro rfl
    exact nearest_roundDiv num pos
  · intro h
    exact Nat.le_antisymm ((nearest_roundDiv num pos).le h pos) (h.le (nearest_roundDiv num pos) pos)

/-- The double `x` stands for a whole number of hundredths, the nearest to the value. -/
def Binary.ToHundredths (b : Binary) (x : Float) : Prop :=
  ∃ n, Nearest (b.mantissa * 2 ^ b.exponent.toNat * 100) (2 ^ (-b.exponent).toNat) n ∧
    x = if b.negative then -Float.ofScientific n true 2 else Float.ofScientific n true 2

theorem Binary.rounded_eq_iff {b : Binary} {x : Float} : b.rounded 2 = x ↔ b.ToHundredths x := by
  have scaled : ∀ n, b.scaled 2 = n ↔
      Nearest (b.mantissa * 2 ^ b.exponent.toNat * 100) (2 ^ (-b.exponent).toNat) n :=
    fun n => roundDiv_eq_iff (Nat.two_pow_pos _)
  simp only [ToHundredths, ← scaled, exists_eq_left']
  exact eq_comm

/-- The double `x` is `y` rounded to hundredths; an infinity and a NaN stay. -/
def RoundsTo (y x : Float) : Prop :=
  match Binary.ofFloat? y with
  | none => x = y
  | some b => b.ToHundredths x

theorem roundTo_eq_iff {x y : Float} : roundTo 2 y = x ↔ RoundsTo y x := by
  unfold roundTo RoundsTo
  cases Binary.ofFloat? y with
  | none => exact eq_comm
  | some b => exact Binary.rounded_eq_iff

end Dockerfile.Decimal
