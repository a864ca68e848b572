import Mathlib.Algebra.Order.BigOperators.Group.List
import Mathlib.Tactic.GCongr
import Mathlib.Tactic.Positivity
import MarketFeed.Decimal.Overflow
import MarketFeed.Proofs.Decimal.Value

/-!
# Exact results

A sum or a difference is rounded only when it has to be: if some decimal has the exact value, the
operation gives one that has. Quantities with few decimal places that stay below a bound therefore
add up without any rounding, in whatever order they are taken.

## Main definitions

* `Decimal.SumsExactly`: no partial sum of a list is rounded
* `Decimal.IsQuantity`: a value of a natural number of hundred millionths

## Main results

* `Decimal.fit_exact`: a representable value is not rounded
* `Decimal.add_exact`, `Decimal.sub_exact`, `Decimal.mul_exact`: sums, differences and products of
  representable value
* `Decimal.sum_of_sumsExactly`: an exact sum has the sum of the values
* `Decimal.sumsExactly_of_isQuantity`: quantities with a total below `10 ^ 20` add up exactly
-/

namespace MarketFeed.Decimal

theorem toRat_neg (a : Decimal) : a.neg.toRat = -a.toRat := by
  rw [toRat_eq_div, toRat_eq_div, neg]
  push_cast
  ring

theorem ofParts?_eq_some {c : ℤ} {s : ℕ} (hc : c.natAbs < limit) (hs : s ≤ maxScale) :
    ofParts? c s = some ⟨c, s, hc, hs⟩ :=
  dif_pos ⟨hc, hs⟩

/-! ## Dropping digits -/

theorem lt_ten_pow_log2 (m : ℕ) : m < 2 * 10 ^ m.log2 := by
  have h : m < 2 ^ (m.log2 + 1) := Nat.lt_log2_self
  have hle : 2 ^ m.log2 ≤ 10 ^ m.log2 := Nat.pow_le_pow_left (by norm_num) _
  rw [pow_succ] at h
  omega

/-- The surplus is within range, and no smaller number of digits is. The last candidate of the
search leaves at most one digit. -/
theorem surplus_spec (m s : ℕ) :
    m / 10 ^ surplus m s < limit ∧ s - maxScale ≤ surplus m s ∧
      ∀ k, s - maxScale ≤ k → m / 10 ^ k < limit → surplus m s ≤ k := by
  cases hf : (List.range' (s - maxScale) (m.log2 + 1)).find? (fun n => m / 10 ^ n < limit) with
  | some n =>
    have hn : surplus m s = n := by
      simp only [surplus, Nat.pow_eq, hf, Option.getD_some]
    obtain ⟨hm, hmem, hleast⟩ := List.find?_range'_eq_some.mp hf
    rw [hn]
    refine ⟨by simpa using hm, (List.mem_range'_1.mp hmem).1, fun k hk hlt => ?_⟩
    by_contra hkn
    have := hleast k hk (by omega)
    simp [hlt] at this
  | none =>
    have hlast := List.find?_eq_none.mp hf (s - maxScale + m.log2)
      (List.mem_range'_1.mpr ⟨by omega, by omega⟩)
    have hdiv : m / 10 ^ (s - maxScale + m.log2) < limit := by
      have h2 : m < 2 * 10 ^ (s - maxScale + m.log2) :=
        (lt_ten_pow_log2 m).trans_le
          (Nat.mul_le_mul_left 2 (Nat.pow_le_pow_right (by norm_num) (by omega)))
      calc m / 10 ^ (s - maxScale + m.log2) < 2 := by
            rwa [Nat.div_lt_iff_lt_mul (by positivity)]
        _ < limit := by norm_num [limit]
    simp [hdiv] at hlast

theorem divNearestEven_mul {d : ℕ} (hd : 0 < d) (q : ℕ) : divNearestEven (q * d) d = q := by
  simp only [divNearestEven, Nat.mul_mod_left, Nat.mul_div_cancel q hd]
  rw [if_neg (by omega)]

/-- Zeros at the end are dropped without rounding. -/
theorem roundOff_mul (c : ℤ) (n : ℕ) : roundOff (c * 10 ^ n) n = c := by
  have hn : (0 : ℤ) < 10 ^ n := by positivity
  have habs : (c * 10 ^ n).natAbs = c.natAbs * 10 ^ n := by
    rw [Int.natAbs_mul, Int.natAbs_pow]
    rfl
  rw [roundOff, Nat.pow_eq, habs, divNearestEven_mul (by positivity), Int.sign_mul,
    Int.sign_eq_one_of_pos hn, mul_one, Int.sign_mul_natAbs]

/-- A coefficient that ends in zeros, so many that the rest fits, is fitted without rounding. -/
theorem fit_mul_ten_pow {c : ℤ} {k s : ℕ} (hc : c.natAbs < limit) (hk : k ≤ s)
    (hs : s - k ≤ maxScale) :
    ∃ d, fit (c * 10 ^ k) s = some d ∧ d.toRat = c * 10 ^ k / 10 ^ s := by
  have habs : ∀ j, (c * 10 ^ j).natAbs = c.natAbs * 10 ^ j := fun j => by
    rw [Int.natAbs_mul, Int.natAbs_pow]
    rfl
  obtain ⟨hlt, hge, hleast⟩ := surplus_spec (c * 10 ^ k).natAbs s
  have hle : surplus (c * 10 ^ k).natAbs s ≤ k := by
    refine hleast k (by omega) ?_
    rwa [habs, Nat.mul_div_cancel _ (by positivity)]
  unfold fit
  generalize surplus (c * 10 ^ k).natAbs s = n at *
  obtain ⟨j, rfl⟩ := Nat.exists_eq_add_of_le' hle
  have hsplit : c * 10 ^ (j + n) = c * 10 ^ j * 10 ^ n := by rw [pow_add, mul_assoc]
  have hbound : (c * 10 ^ j).natAbs < limit := by
    rwa [habs, pow_add, ← mul_assoc, Nat.mul_div_cancel _ (by positivity), ← habs] at hlt
  have hscale : s - n ≤ maxScale := by omega
  refine ⟨⟨c * 10 ^ j, s - n, hbound, hscale⟩, ?_, ?_⟩
  · simp only [if_neg (show ¬ s < n by omega), hsplit, roundOff_mul,
      ofParts?_eq_some hbound hscale, Option.some_or]
  obtain ⟨r, rfl⟩ := Nat.exists_eq_add_of_le' (show n ≤ s by omega)
  simp only [toRat_eq_div, Nat.add_sub_cancel, pow_add]
  push_cast
  field_simp

/-- A value that some decimal has is not rounded. -/
theorem fit_exact {c : ℤ} {s : ℕ} (h : ∃ d : Decimal, d.toRat = c / 10 ^ s) :
    ∃ d, fit c s = some d ∧ d.toRat = c / 10 ^ s := by
  obtain ⟨d, hd⟩ := h
  rw [toRat_eq_div, div_eq_div_iff (ten_pow_pos _).ne' (ten_pow_pos _).ne'] at hd
  have hcross : d.coefficient * 10 ^ s = c * 10 ^ d.scale := by exact_mod_cast hd
  rcases Nat.le_total d.scale s with hle | hle
  · obtain ⟨k, rfl⟩ := Nat.exists_eq_add_of_le' hle
    have hc : c = d.coefficient * 10 ^ k := by
      rw [pow_add, ← mul_assoc] at hcross
      exact (mul_right_cancel₀ (pow_ne_zero _ (by norm_num)) hcross).symm
    obtain ⟨e, he, hval⟩ := fit_mul_ten_pow (k := k) (s := k + d.scale) d.coefficient_lt (by omega)
      (by rw [Nat.add_sub_cancel_left]; exact d.scale_le)
    refine ⟨e, hc ▸ he, ?_⟩
    rw [hval, hc]
    push_cast
    rfl
  · obtain ⟨k, hk⟩ := Nat.exists_eq_add_of_le' hle
    have hc : d.coefficient = c * 10 ^ k := by
      rw [hk, pow_add, ← mul_assoc] at hcross
      exact mul_right_cancel₀ (pow_ne_zero _ (by norm_num)) hcross
    have hlt : c.natAbs < limit := by
      refine lt_of_le_of_lt ?_ d.coefficient_lt
      rw [hc, Int.natAbs_mul, Int.natAbs_pow]
      exact Nat.le_mul_of_pos_right _ (by positivity)
    have hs : s ≤ maxScale := hle.trans d.scale_le
    simpa using fit_mul_ten_pow (k := 0) hlt (Nat.zero_le s) (by omega)

/-! ## Sums and differences -/

/-- A decimal over a scale that is no smaller than its own. -/
theorem toRat_eq_div_of_le (a : Decimal) {s : ℕ} (hs : a.scale ≤ s) :
    a.toRat = ((a.coefficient * 10 ^ (s - a.scale) : ℤ) : ℚ) / 10 ^ s := by
  obtain ⟨i, rfl⟩ := Nat.exists_eq_add_of_le hs
  rw [toRat_eq_div, Nat.add_sub_cancel_left, pow_add]
  push_cast
  field_simp

/-- Over the common scale the sum of the values is that of the coefficients. -/
theorem toRat_add (a b : Decimal) : a.toRat + b.toRat =
    ((a.coefficient * 10 ^ (Nat.max a.scale b.scale - a.scale) +
      b.coefficient * 10 ^ (Nat.max a.scale b.scale - b.scale) : ℤ) : ℚ) /
        10 ^ Nat.max a.scale b.scale := by
  rw [Int.cast_add, add_div, ← toRat_eq_div_of_le a (Nat.le_max_left _ _),
    ← toRat_eq_div_of_le b (Nat.le_max_right _ _)]

theorem add_exact {a b : Decimal} (h : ∃ d : Decimal, d.toRat = a.toRat + b.toRat) :
    ∃ d, a.add b = some d ∧ d.toRat = a.toRat + b.toRat := by
  unfold add
  by_cases ha : a.coefficient = 0
  · exact ⟨b, if_pos ha, by rw [toRat_eq_zero_iff.mpr ha, zero_add]⟩
  by_cases hb : b.coefficient = 0
  · exact ⟨a, by rw [if_neg ha, if_pos hb], by rw [toRat_eq_zero_iff.mpr hb, add_zero]⟩
  rw [if_neg ha, if_neg hb]
  rw [toRat_add] at h ⊢
  exact fit_exact h

theorem sub_exact {a b : Decimal} (h : ∃ d : Decimal, d.toRat = a.toRat - b.toRat) :
    ∃ d, a.sub b = some d ∧ d.toRat = a.toRat - b.toRat := by
  have hneg : a.toRat - b.toRat = a.toRat + b.neg.toRat := by rw [toRat_neg, sub_eq_add_neg]
  rw [hneg] at h ⊢
  exact add_exact h

/-! ## Products -/

/-- The value of a product is that of the coefficients over the sum of the scales. -/
theorem toRat_mul (a b : Decimal) : a.toRat * b.toRat =
    ((a.coefficient * b.coefficient : ℤ) : ℚ) / 10 ^ (a.scale + b.scale) := by
  rw [toRat_eq_div, toRat_eq_div, pow_add]
  push_cast
  field_simp

/-- No decimal but zero is smaller than a unit of the last place. -/
theorem one_div_le_abs_toRat {a : Decimal} (ha : a.toRat ≠ 0) : 1 / 10 ^ 28 ≤ |a.toRat| := by
  have hone : (1 : ℚ) ≤ |(a.coefficient : ℚ)| := by
    rw [← Int.cast_abs]
    exact_mod_cast Int.one_le_abs (mt toRat_eq_zero_iff.mpr ha)
  rw [toRat_eq_div, abs_div, abs_of_pos (ten_pow_pos _)]
  gcongr
  · norm_num
  · exact a.scale_le

/-- Two short coefficients with many places have a product below half a unit of the last place. -/
theorem abs_mul_lt_of_short {a b : Decimal} (ha : a.coefficient.natAbs < Nat.pow 2 32)
    (hb : b.coefficient.natAbs < Nat.pow 2 32) (hs : 47 < a.scale + b.scale) :
    2 * |a.toRat * b.toRat| < 1 / 10 ^ 28 := by
  have hlt : 2 * (a.coefficient * b.coefficient).natAbs < 10 ^ 20 := by
    rw [Int.natAbs_mul]
    calc 2 * (a.coefficient.natAbs * b.coefficient.natAbs)
        ≤ 2 * (Nat.pow 2 32 * Nat.pow 2 32) := Nat.mul_le_mul_left 2 (Nat.mul_le_mul ha.le hb.le)
      _ < 10 ^ 20 := by norm_num
  have hcast : 2 * |((a.coefficient * b.coefficient : ℤ) : ℚ)| < 10 ^ 20 := by
    rw [← Int.cast_abs, Int.abs_eq_natAbs]
    exact_mod_cast hlt
  rw [toRat_mul, abs_div, abs_of_pos (ten_pow_pos _), ← mul_div_assoc,
    div_lt_div_iff₀ (ten_pow_pos _) (ten_pow_pos _)]
  calc 2 * |((a.coefficient * b.coefficient : ℤ) : ℚ)| * 10 ^ 28
      < 10 ^ 20 * 10 ^ 28 := by gcongr
    _ = 10 ^ 48 := by norm_num
    _ ≤ 10 ^ (a.scale + b.scale) := by gcongr; norm_num; omega
    _ = 1 * 10 ^ (a.scale + b.scale) := (one_mul _).symm

theorem mul_exact {a b : Decimal} (h : ∃ d : Decimal, d.toRat = a.toRat * b.toRat) :
    ∃ d, a.mul b = some d ∧ d.toRat = a.toRat * b.toRat := by
  unfold mul
  by_cases hzero : a.coefficient = 0 ∨ b.coefficient = 0
  · refine ⟨zero, if_pos hzero, ?_⟩
    rcases hzero with ha | hb
    · rw [toRat_eq_zero_iff.mpr ha, zero_mul, toRat_zero]
    · rw [toRat_eq_zero_iff.mpr hb, mul_zero, toRat_zero]
  rw [if_neg hzero]
  split_ifs with hsmall
  · obtain ⟨d, hd⟩ := h
    have hne : d.toRat ≠ 0 := by
      rw [hd, Ne, mul_eq_zero, toRat_eq_zero_iff, toRat_eq_zero_iff]
      exact hzero
    have hlt := abs_mul_lt_of_short hsmall.1 hsmall.2.1 hsmall.2.2
    have hunit := one_div_le_abs_toRat hne
    rw [← hd] at hlt
    linarith [abs_nonneg d.toRat]
  · rw [toRat_mul] at h ⊢
    exact fit_exact h

/-! ## Exact sums -/

/-- No partial sum is rounded when the decimals are added to `a` one after another. -/
def SumsExactly : Decimal → List Decimal → Prop
  | _, [] => True
  | a, b :: bs => ∃ c ∈ a.add b, c.toRat = a.toRat + b.toRat ∧ SumsExactly c bs

instance SumsExactly.decidable : ∀ a bs, Decidable (SumsExactly a bs)
  | _, [] => inferInstanceAs (Decidable True)
  | a, b :: bs =>
    have (c : Decimal) : Decidable (SumsExactly c bs) := SumsExactly.decidable c bs
    inferInstanceAs (Decidable (∃ c ∈ a.add b, c.toRat = a.toRat + b.toRat ∧ SumsExactly c bs))

theorem foldlM_plus_of_sumsExactly {a : Decimal} {bs : List Decimal} (h : SumsExactly a bs) :
    ∃ d, bs.foldlM plus a = .ok d ∧ d.toRat = a.toRat + (bs.map toRat).sum := by
  induction bs generalizing a with
  | nil => exact ⟨a, rfl, by simp⟩
  | cons b bs ih =>
    obtain ⟨c, hc, hval, hrest⟩ := h
    obtain ⟨d, hd, hsum⟩ := ih hrest
    refine ⟨d, ?_, ?_⟩
    · rw [List.foldlM_cons, plus, Option.mem_def.mp hc]
      exact hd
    · rw [hsum, hval, List.map_cons, List.sum_cons, add_assoc]

/-- An exact sum has the sum of the values. -/
theorem sum_of_sumsExactly {as : List Decimal} (h : SumsExactly zero as) :
    ∃ d, sum as = .ok d ∧ d.toRat = (as.map toRat).sum := by
  simpa [sum] using foldlM_plus_of_sumsExactly h

/-! ## Quantities -/

/-- A quantity is not negative and has at most eight decimal places. -/
def IsQuantity (q : ℚ) : Prop := ∃ n : ℕ, q = n / 10 ^ 8

namespace IsQuantity

theorem zero : IsQuantity 0 := ⟨0, by simp⟩

theorem nonneg {q : ℚ} (h : IsQuantity q) : 0 ≤ q := by
  obtain ⟨n, rfl⟩ := h
  positivity

theorem add {q r : ℚ} (hq : IsQuantity q) (hr : IsQuantity r) : IsQuantity (q + r) := by
  obtain ⟨m, rfl⟩ := hq
  obtain ⟨n, rfl⟩ := hr
  exact ⟨m + n, by push_cast; ring⟩

/-- A decimal that is not negative and has at most eight decimal places is a quantity. -/
theorem of_scale_le {a : Decimal} (ha : 0 ≤ a.coefficient) (hs : a.scale ≤ 8) :
    IsQuantity a.toRat := by
  obtain ⟨k, hk⟩ := Nat.exists_eq_add_of_le hs
  obtain ⟨n, hn⟩ := Int.eq_ofNat_of_zero_le ha
  refine ⟨n * 10 ^ k, ?_⟩
  rw [toRat_eq_div, hn, hk, pow_add]
  push_cast
  field_simp

/-- What is left of a quantity after another is taken off is a quantity. -/
theorem sub_max_zero {q r : ℚ} (hq : IsQuantity q) (hr : IsQuantity r) :
    IsQuantity (Max.max (q - r) 0) := by
  obtain ⟨m, rfl⟩ := hq
  obtain ⟨n, rfl⟩ := hr
  refine ⟨m - n, ?_⟩
  rcases Nat.le_total n m with h | h
  · have hle : (n : ℚ) / 10 ^ 8 ≤ m / 10 ^ 8 := by gcongr
    rw [max_eq_left (sub_nonneg.mpr hle), Nat.cast_sub h, sub_div]
  · have hle : (m : ℚ) / 10 ^ 8 ≤ n / 10 ^ 8 := by gcongr
    rw [max_eq_right (sub_nonpos.mpr hle), Nat.sub_eq_zero_of_le h, Nat.cast_zero, zero_div]

theorem lt_of_div_lt {k : ℕ} (h : (k : ℚ) / 10 ^ 8 < 10 ^ 20) : k < 10 ^ 28 := by
  rw [div_lt_iff₀ (by positivity)] at h
  have hcast : (k : ℚ) < (10 ^ 28 : ℕ) := by
    push_cast
    linarith
  exact_mod_cast hcast

/-- The sum of two quantities below `10 ^ 20` is the value of a decimal. -/
theorem exists_add {q r : ℚ} (hq : IsQuantity q) (hr : IsQuantity r) (hql : q < 10 ^ 20)
    (hrl : r < 10 ^ 20) : ∃ d : Decimal, d.toRat = q + r := by
  obtain ⟨m, rfl⟩ := hq
  obtain ⟨n, rfl⟩ := hr
  have hm := lt_of_div_lt hql
  have hn := lt_of_div_lt hrl
  have hsum : (m + n : ℤ).natAbs < Nat.pow 2 96 := by
    rw [Nat.pow_eq]
    omega
  refine ⟨⟨m + n, 8, hsum, by omega⟩, ?_⟩
  rw [toRat_eq_div]
  push_cast
  ring

/-- The difference of two quantities below `10 ^ 20` is the value of a decimal. -/
theorem exists_sub {q r : ℚ} (hq : IsQuantity q) (hr : IsQuantity r) (hql : q < 10 ^ 20)
    (hrl : r < 10 ^ 20) : ∃ d : Decimal, d.toRat = q - r := by
  obtain ⟨m, rfl⟩ := hq
  obtain ⟨n, rfl⟩ := hr
  have hm := lt_of_div_lt hql
  have hn := lt_of_div_lt hrl
  have hdiff : (m - n : ℤ).natAbs < Nat.pow 2 96 := by
    rw [Nat.pow_eq]
    omega
  refine ⟨⟨m - n, 8, hdiff, by omega⟩, ?_⟩
  rw [toRat_eq_div]
  push_cast
  ring

theorem exists_decimal {q : ℚ} (hq : IsQuantity q) (hql : q < 10 ^ 20) :
    ∃ d : Decimal, d.toRat = q := by
  simpa using hq.exists_sub zero hql (by positivity)

end IsQuantity

theorem sum_toRat_nonneg {as : List Decimal} (h : ∀ a ∈ as, IsQuantity a.toRat) :
    0 ≤ (as.map toRat).sum :=
  List.sum_nonneg fun q hq => by
    obtain ⟨a, ha, rfl⟩ := List.mem_map.mp hq
    exact (h a ha).nonneg

/-- Quantities whose total stays below `10 ^ 20` add up without rounding. Since nothing that follows
is negative, the bound holds for every partial sum. -/
theorem sumsExactly_of_isQuantity {a : Decimal} {bs : List Decimal} (ha : IsQuantity a.toRat)
    (hbs : ∀ b ∈ bs, IsQuantity b.toRat) (hsum : a.toRat + (bs.map toRat).sum < 10 ^ 20) :
    SumsExactly a bs := by
  induction bs generalizing a with
  | nil => trivial
  | cons b bs ih =>
    rw [List.map_cons, List.sum_cons, ← add_assoc] at hsum
    have hb := hbs b List.mem_cons_self
    have hrest := sum_toRat_nonneg fun c hc => hbs c (List.mem_cons_of_mem _ hc)
    obtain ⟨c, hc, hval⟩ := add_exact ((ha.add hb).exists_decimal (by linarith))
    refine ⟨c, hc, hval, ih (hval ▸ ha.add hb) ?_ (by rw [hval]; exact hsum)⟩
    exact fun b' hb' => hbs b' (List.mem_cons_of_mem _ hb')

end MarketFeed.Decimal
