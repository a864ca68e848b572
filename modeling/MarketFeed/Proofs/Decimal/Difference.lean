import MarketFeed.Proofs.Decimal.Rounding

/-!
# Differences

A difference changes its sign with the order of the operands: the sign stands outside of the
roundings, those of a quotient included. The difference of two numbers that are not negative is
never out of range, and it is not rounded where their sum is a decimal.

## Main results

* `Decimal.fit_neg`, `Decimal.neg_div`: the sign stands outside of roundings and quotients
* `Decimal.sub_swap`, `Decimal.minus_swap`: the difference the other way round
* `Decimal.exists_sub`: differences of numbers that are not negative have a result
* `Decimal.exists_toRat_sub`: where the sum is a decimal, so is the difference
-/

namespace MarketFeed.Decimal

variable {a b : Decimal}

/-! ## Signs -/

theorem neg_neg (a : Decimal) : a.neg.neg = a := by
  cases a
  simp only [neg, Int.neg_neg]

theorem ofParts?_neg (c : ℤ) (s : ℕ) : ofParts? (-c) s = (ofParts? c s).map neg := by
  unfold ofParts?
  simp only [Int.natAbs_neg]
  split_ifs <;> rfl

theorem roundOff_neg (c : ℤ) (n : ℕ) : roundOff (-c) n = -roundOff c n := by
  rw [roundOff, roundOff, Int.sign_neg, Int.natAbs_neg, Int.neg_mul]

theorem fit_neg (c : ℤ) (s : ℕ) : fit (-c) s = (fit c s).map neg := by
  simp only [fit, Int.natAbs_neg, roundOff_neg, ofParts?_neg]
  split_ifs
  · rfl
  · rw [Option.map_or, Option.map_none]
  · rw [Option.map_or]

theorem neg_add_neg (a b : Decimal) : a.neg.add b.neg = (a.add b).map neg := by
  have hzero : ∀ x : Decimal, x.neg.coefficient = 0 ↔ x.coefficient = 0 := fun _ => neg_eq_zero
  simp only [add, hzero]
  split_ifs
  · rfl
  · rfl
  · rw [← fit_neg]
    simp only [neg, Int.neg_mul, Int.neg_add]

/-- The difference the other way round has the opposite sign. -/
theorem sub_swap (h : a.toRat ≠ 0 ∨ b.toRat ≠ 0) : b.sub a = (a.sub b).map neg := by
  have hneg : a.neg.toRat ≠ 0 ∨ b.toRat ≠ 0 := by rwa [toRat_neg, neg_ne_zero]
  rw [sub, sub, ← neg_add_neg, neg_neg, add_comm_of_ne hneg.symm]

theorem neg_div (a b : Decimal) : a.neg.div b = (a.div b).map neg := by
  have hzero : a.neg.coefficient = 0 ↔ a.coefficient = 0 := neg_eq_zero
  simp only [div, hzero]
  split_ifs
  · rfl
  · rfl
  · simp only [neg, Int.natAbs_neg, Int.sign_neg, Int.neg_mul]
    split
    · rfl
    · exact ofParts?_neg _ _

/-! ## Results and overflows -/

theorem orOverflow_eq_ok_iff {α : Type} {o : Overflow} {x : Option α} {y : α} :
    orOverflow o x = .ok y ↔ x = some y := by
  cases x <;> simp [orOverflow]

theorem orOverflow_map {α β : Type} (o : Overflow) (f : α → β) (x : Option α) :
    orOverflow o (x.map f) = (orOverflow o x).map f := by
  cases x <;> rfl

theorem plus_eq_ok_iff {c : Decimal} : a.plus b = .ok c ↔ a.add b = some c := orOverflow_eq_ok_iff

theorem minus_eq_ok_iff {c : Decimal} : a.minus b = .ok c ↔ a.sub b = some c := orOverflow_eq_ok_iff

theorem dividedBy_eq_ok_iff {c : Decimal} : a.dividedBy b = .ok c ↔ a.div b = some c :=
  orOverflow_eq_ok_iff

theorem plus_comm_of_ne (h : a.toRat ≠ 0 ∨ b.toRat ≠ 0) : a.plus b = b.plus a :=
  congrArg (orOverflow .addition) (add_comm_of_ne h)

theorem minus_swap (h : a.toRat ≠ 0 ∨ b.toRat ≠ 0) : b.minus a = (a.minus b).map neg := by
  rw [minus, minus, sub_swap h, orOverflow_map]

theorem neg_dividedBy (a b : Decimal) : a.neg.dividedBy b = (a.dividedBy b).map neg := by
  rw [dividedBy, dividedBy, neg_div, orOverflow_map]

/-! ## Range -/

theorem abs_toRat_le (a : Decimal) : |a.toRat| ≤ limit - 1 := by
  have hunits := abs_units_le a (p := 0) (Nat.cast_nonneg _)
  rwa [zpow_zero, mul_one] at hunits

/-- The difference of two numbers that are not negative has a result. -/
theorem exists_sub (ha : 0 ≤ a.toRat) (hb : 0 ≤ b.toRat) : ∃ d, a.sub b = some d := by
  rcases ha.eq_or_lt with ha | ha
  · have hzero : a.coefficient = 0 := toRat_eq_zero_iff.mp ha.symm
    exact ⟨b.neg, if_pos hzero⟩
  rcases hb.eq_or_lt with hb | hb
  · have hzero : b.neg.coefficient = 0 := neg_eq_zero.mpr (toRat_eq_zero_iff.mp hb.symm)
    unfold sub add
    split_ifs
    · exact ⟨_, rfl⟩
    · exact ⟨_, rfl⟩
  · have ha' := (le_abs_self _).trans (abs_toRat_le a)
    have hb' := (le_abs_self _).trans (abs_toRat_le b)
    refine exists_add ?_
    rw [InRange, toRat_neg, abs_lt]
    constructor <;> linarith

/-! ## Exact differences -/

/-- Whole units of a place, no more than coefficients have room for, are a decimal. -/
theorem exists_toRat_of_units {q : ℚ} {p : ℕ} {j : ℤ} (hp : p ≤ 28) (hunits : q * 10 ^ p = j)
    (hle : |q| * 10 ^ p ≤ limit - 1) : ∃ d : Decimal, d.toRat = q := by
  have habs : (j.natAbs : ℚ) ≤ limit - 1 := by
    rwa [← Int.cast_natCast, ← Int.abs_eq_natAbs, Int.cast_abs, ← hunits, abs_mul,
      abs_of_pos (ten_pow_pos p)]
  have hlt : (j.natAbs : ℚ) < limit := by linarith
  refine ⟨⟨j, p, by exact_mod_cast hlt, hp⟩, ?_⟩
  rw [toRat_eq_div, ← hunits, mul_div_cancel_right₀ _ (ten_pow_pos p).ne']

/-- Where the sum of two numbers that are not negative is a decimal, so is the difference. Twice one
of them less the sum, it has no place behind the last one of these, and there is room for it at that
place, since there is for one of them that is no smaller. -/
theorem exists_toRat_sub (ha : 0 ≤ a.toRat) (hb : 0 ≤ b.toRat)
    (h : ∃ d : Decimal, d.toRat = a.toRat + b.toRat) :
    ∃ d : Decimal, d.toRat = a.toRat - b.toRat := by
  wlog hscale : a.scale ≤ b.scale generalizing a b
  · rw [add_comm] at h
    obtain ⟨d, hd⟩ := this hb ha h (by omega)
    exact ⟨d.neg, by rw [toRat_neg, hd, neg_sub]⟩
  obtain ⟨t, ht⟩ := h
  have hdiff : ∀ {p : ℕ}, a.scale ≤ p → t.scale ≤ p →
      ∃ j : ℤ, (a.toRat - b.toRat) * 10 ^ p = j := by
    intro p hap htp
    obtain ⟨i, hi⟩ := exists_units a (p := p) (by exact_mod_cast hap)
    obtain ⟨j, hj⟩ := exists_units t (p := p) (by exact_mod_cast htp)
    rw [zpow_natCast] at hi hj
    refine ⟨2 * i - j, ?_⟩
    rw [ht] at hj
    push_cast
    rw [← hi, ← hj]
    ring
  rcases le_total t.scale a.scale with hplaces | hplaces
  · obtain ⟨j, hj⟩ := hdiff le_rfl hplaces
    refine exists_toRat_of_units a.scale_le hj ?_
    have ha' := abs_units_le a (p := a.scale) le_rfl
    have hb' := abs_units_le b (p := a.scale) (by exact_mod_cast hscale)
    rw [zpow_natCast, abs_of_nonneg ha] at ha'
    rw [zpow_natCast, abs_of_nonneg hb] at hb'
    have hpow := ten_pow_pos a.scale
    have habs : |a.toRat - b.toRat| * 10 ^ a.scale =
        |a.toRat * 10 ^ a.scale - b.toRat * 10 ^ a.scale| := by
      rw [← sub_mul, abs_mul, abs_of_pos hpow]
    rw [habs, abs_le]
    have ha₀ := mul_nonneg ha hpow.le
    have hb₀ := mul_nonneg hb hpow.le
    constructor <;> linarith
  · obtain ⟨j, hj⟩ := hdiff hplaces le_rfl
    refine exists_toRat_of_units t.scale_le hj ?_
    have ht' := abs_units_le t (p := t.scale) le_rfl
    rw [zpow_natCast] at ht'
    have hle : |a.toRat - b.toRat| ≤ |t.toRat| := by
      rw [ht, abs_of_nonneg (add_nonneg ha hb), abs_le]
      constructor <;> linarith
    exact (mul_le_mul_of_nonneg_right hle (ten_pow_pos _).le).trans ht'

end MarketFeed.Decimal
