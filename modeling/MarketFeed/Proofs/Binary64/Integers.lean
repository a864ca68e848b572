import Mathlib.Tactic.Positivity
import MarketFeed.Binary64.Basic

/-!
# Integers as doubles

A double has 53 significant bits. An integer with more of them is rounded to a multiple of a power
of two, which is all that a double can tell of it. Read back as an integer of 64 bits, it is off by
up to a half of that power, or it is the greatest one if it has no room.

## Main results

* `exponentOf_one`: the last bit of a double near a great integer
* `toNatAtMost_ofRatio_one`: a great integer as a double, read back
* `toNatAtMost_ofPower10`: an integer of more than 63 bits as a double, read back with 64 bits
-/

namespace MarketFeed.Binary64

variable {n limit : ℕ}

/-- Rounding to a multiple goes below no multiple. -/
theorem mul_le_divNearestEven_mul {c d : ℕ} (hd : 0 < d) (h : c * d ≤ n) :
    c * d ≤ divNearestEven n d * d := by
  have hfloor : c ≤ n / d := (Nat.le_div_iff_mul_le hd).mpr h
  refine Nat.mul_le_mul_right d (hfloor.trans ?_)
  simp only [divNearestEven]
  split
  · exact Nat.le_succ _
  · exact le_rfl

theorem two_pow_mul_le_of_log2 {k : ℕ} (hn : n ≠ 0) (hk : k ≤ n.log2) :
    2 ^ k * 2 ^ (n.log2 - k) ≤ n := by
  rw [← pow_add, Nat.add_sub_cancel' hk]
  exact Nat.log2_self_le hn

theorem exponentOf_one (hn : 2 ^ 53 ≤ n) : exponentOf n 1 = (n.log2 - 52 : ℕ) := by
  have hlog : 53 ≤ n.log2 := (Nat.le_log2 (by omega)).mpr hn
  have hexp : max ((n.log2 : ℤ) - (Nat.log2 1 : ℕ) - 53) leastExponent = (n.log2 - 53 : ℕ) := by
    have hone : Nat.log2 1 = 0 := rfl
    rw [hone, leastExponent]
    omega
  have hmany : ¬ n * Nat.pow 2 (-((n.log2 - 53 : ℕ) : ℤ)).toNat /
      (1 * Nat.pow 2 ((n.log2 - 53 : ℕ) : ℤ).toNat) < Nat.pow 2 53 := by
    have hneg : (-((n.log2 - 53 : ℕ) : ℤ)).toNat = 0 := by omega
    rw [hneg, Int.toNat_natCast, Nat.pow_eq, Nat.pow_eq, Nat.pow_eq, pow_zero, Nat.mul_one,
      Nat.one_mul, Nat.not_lt, Nat.le_div_iff_mul_le (by positivity)]
    exact two_pow_mul_le_of_log2 (by omega) hlog
  simp only [exponentOf, hexp]
  rw [if_neg hmany]
  omega

theorem toNatAtMost_finite (limit m e : ℕ) :
    (finite false m e).toNatAtMost limit = min limit (m * 2 ^ e) := by
  have hneg : (-(e : ℤ)).toNat = 0 := by omega
  rw [toNatAtMost, hneg, Int.toNat_natCast, Nat.pow_eq, Nat.pow_eq, pow_zero]
  congr 1
  rw [Nat.mul_assoc]
  omega

/-- **A great integer as a double, read back:** the nearest multiple of the last bit. -/
theorem toNatAtMost_ofRatio_one (hn : 2 ^ 53 ≤ n) (hlimit : limit < 2 ^ 64) :
    (ofRatio false n 1).toNatAtMost limit =
      min limit (divNearestEven n (2 ^ (n.log2 - 52)) * 2 ^ (n.log2 - 52)) := by
  have hzero : n ≠ 0 := by omega
  have hlog : 53 ≤ n.log2 := (Nat.le_log2 hzero).mpr hn
  set s := n.log2 - 52 with hs
  have hscaled : scaled n 1 s = divNearestEven n (2 ^ s) := by
    have hneg : (-(s : ℤ)).toNat = 0 := by omega
    rw [scaled, hneg, Int.toNat_natCast, Nat.pow_eq, Nat.pow_eq, pow_zero, Nat.mul_one, Nat.one_mul]
  have hlimited (hbig : 970 ≤ s) : limit ≤ divNearestEven n (2 ^ s) * 2 ^ s := by
    have hlow : 2 ^ 52 * 2 ^ s ≤ divNearestEven n (2 ^ s) * 2 ^ s :=
      mul_le_divNearestEven_mul (by positivity) (two_pow_mul_le_of_log2 hzero (by omega))
    have hpower : 2 ^ 64 ≤ 2 ^ s := Nat.pow_le_pow_right (by decide) (by omega)
    omega
  rw [ofRatio, if_neg hzero, exponentOf_one hn, ← hs]
  dsimp only
  rw [hscaled]
  by_cases hfull : divNearestEven n (2 ^ s) = Nat.pow 2 53
  · simp only [if_pos hfull]
    by_cases hinf : greatestExponent < (s : ℤ) + 1
    · have hbig : 970 ≤ s := by
        rw [greatestExponent] at hinf
        omega
      rw [if_pos hinf, toNatAtMost, min_eq_left (hlimited hbig)]
    · rw [if_neg hinf]
      have hnext := toNatAtMost_finite limit (2 ^ 52) (s + 1)
      have hsame : 2 ^ 52 * 2 ^ (s + 1) = divNearestEven n (2 ^ s) * 2 ^ s := by
        rw [hfull, Nat.pow_eq, pow_succ' 2 s]
        omega
      rw [hsame] at hnext
      exact_mod_cast hnext
  · simp only [if_neg hfull]
    by_cases hinf : greatestExponent < (s : ℤ)
    · have hbig : 970 ≤ s := by
        rw [greatestExponent] at hinf
        omega
      rw [if_pos hinf, toNatAtMost, min_eq_left (hlimited hbig)]
    · rw [if_neg hinf, toNatAtMost_finite]

theorem ofPower10_zero (n : ℕ) : ofPower10 false n 0 = ofNat n := by
  rw [ofPower10, ofNat]
  split
  · rename_i hn
    rw [hn, ofRatio, if_pos rfl]
  · rw [if_neg (by omega), if_neg (by decide)]
    exact congrArg (ofRatio false · 1) (Nat.mul_one n)

/-- **An integer of more than 63 bits as a double, read back with 64 bits:** it loses its last
eleven bits, or all of them where it has no room. -/
theorem toNatAtMost_ofPower10 (hn : 2 ^ 63 ≤ n) :
    (ofPower10 false n 0).toNatAtMost (2 ^ 64 - 1) =
      min (2 ^ 64 - 1) (divNearestEven n (2 ^ 11) * 2 ^ 11) := by
  have hzero : n ≠ 0 := by omega
  rw [ofPower10_zero, ofNat, toNatAtMost_ofRatio_one (by omega) (by omega)]
  by_cases hroom : n < 2 ^ 64
  · have hlog : n.log2 = 63 := (Nat.log2_eq_iff hzero).mpr ⟨hn, hroom⟩
    rw [hlog]
  · have hlog : 64 ≤ n.log2 := (Nat.le_log2 hzero).mpr (by omega)
    have hpower : 2 ^ 12 ≤ 2 ^ (n.log2 - 52) := Nat.pow_le_pow_right (by decide) (by omega)
    have hlast := mul_le_divNearestEven_mul (by positivity)
      (two_pow_mul_le_of_log2 hzero (show 52 ≤ n.log2 by omega))
    have heleven : 2 ^ 53 * 2 ^ 11 ≤ divNearestEven n (2 ^ 11) * 2 ^ 11 :=
      mul_le_divNearestEven_mul (by positivity) (by omega)
    omega

/-- A negative integer as a double, read back. -/
theorem toNatAtMost_ofPower10_true (n : ℕ) (e : ℤ) (limit : ℕ) :
    (ofPower10 true n e).toNatAtMost limit = 0 := by
  have hratio : ∀ n d, (ofRatio true n d).toNatAtMost limit = 0 := by
    intro n d
    rw [ofRatio]
    split
    · rfl
    · dsimp only
      split <;> split <;> rfl
  rw [ofPower10]
  split
  · rfl
  · split
    · rfl
    · split
      · rfl
      · exact hratio _ _

end MarketFeed.Binary64
