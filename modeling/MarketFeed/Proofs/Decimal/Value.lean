import Mathlib.Algebra.Order.Field.Rat
import Mathlib.Tactic.FieldSimp
import Mathlib.Tactic.Linarith
import Mathlib.Tactic.Ring
import MarketFeed.Decimal.Basic

/-!
# The values of decimals

The comparisons of decimals work on coefficients that are brought to a common scale. Each of them
is the comparison of the rational values.

## Main results

* `Decimal.same_iff`, `Decimal.le_iff`, `Decimal.lt_iff`: comparisons are those of the values
* `Decimal.toRat_max`: the greater decimal has the greater value
-/

namespace MarketFeed.Decimal

theorem toRat_eq_div (a : Decimal) : a.toRat = (a.coefficient : ℚ) / 10 ^ a.scale := by
  rw [toRat, Rat.mkRat_eq_div, Nat.pow_eq]
  push_cast
  rfl

@[simp] theorem toRat_ofNat (n : ℕ) (h : n < Nat.pow 2 96) : (ofNat n h).toRat = n := by
  rw [toRat_eq_div]
  simp [ofNat]

@[simp] theorem toRat_zero : zero.toRat = 0 := by
  simp [zero]

@[simp] theorem toRat_one : one.toRat = 1 := by
  simp [one]

theorem int_pow_eq (m : ℤ) (n : ℕ) : Int.pow m n = m ^ n := rfl

theorem ten_pow_pos (n : ℕ) : (0 : ℚ) < 10 ^ n := by positivity

/-- The coefficient at the sum of the scales is the value times a power of ten that both decimals
share. -/
theorem cross_eq (a b : Decimal) :
    (a.cross b : ℚ) = a.toRat * 10 ^ (a.scale + b.scale) := by
  rw [cross, toRat_eq_div, pow_add, int_pow_eq]
  push_cast
  field_simp

theorem cross_swap (a b : Decimal) :
    (b.cross a : ℚ) = b.toRat * 10 ^ (a.scale + b.scale) := by
  rw [cross_eq, add_comm b.scale]

theorem same_iff {a b : Decimal} : a.Same b ↔ a.toRat = b.toRat := by
  rw [Same, ← Int.cast_inj (α := ℚ), cross_eq a b, cross_swap a b]
  exact mul_left_inj' (ten_pow_pos _).ne'

theorem le_iff {a b : Decimal} : a ≤ b ↔ a.toRat ≤ b.toRat := by
  change a.cross b ≤ b.cross a ↔ _
  rw [← Int.cast_le (R := ℚ), cross_eq a b, cross_swap a b]
  exact mul_le_mul_iff_of_pos_right (ten_pow_pos _)

theorem lt_iff {a b : Decimal} : a < b ↔ a.toRat < b.toRat := by
  change a.cross b < b.cross a ↔ _
  rw [← Int.cast_lt (R := ℚ), cross_eq a b, cross_swap a b]
  exact mul_lt_mul_iff_of_pos_right (ten_pow_pos _)

theorem le_zero_iff {a : Decimal} : a ≤ zero ↔ a.toRat ≤ 0 := by
  rw [le_iff, toRat_zero]

theorem not_le_zero_iff {a : Decimal} : ¬ a ≤ zero ↔ 0 < a.toRat := by
  rw [le_zero_iff, not_le]

theorem toRat_max (a b : Decimal) : (a.max b).toRat = Max.max a.toRat b.toRat := by
  unfold Decimal.max
  by_cases h : a < b
  · rw [if_pos h, max_eq_right (lt_iff.mp h).le]
  · rw [if_neg h, max_eq_left (not_lt.mp (mt lt_iff.mpr h))]

theorem toRat_eq_zero_iff {a : Decimal} : a.toRat = 0 ↔ a.coefficient = 0 := by
  rw [toRat_eq_div, div_eq_zero_iff]
  simp

end MarketFeed.Decimal
