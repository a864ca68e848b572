import MarketFeed.Proofs.Decimal.Quotient

/-!
# What a value is rounded to

A sum, a difference, a product or a quotient that may lose digits is rounded to nearest at the last
place of use, of two neighbours to the even one. The last place of use is told by the value alone:
there is no place behind it that a decimal of that magnitude could still use, since either the
places or the coefficients are exhausted. So the results of all operations are told by the values of
their operands, however these are spelled, and there is a result if and only if the value is in
range.

Nothing is pushed past any decimal: whatever decimal is no greater than the exact value is no
greater than the rounded one, and likewise from above. A comparison of an exact result with a
decimal, such as zero or one of the operands, can therefore be read off the rounded result.

## Main definitions

* `Decimal.Faithful`: a decimal stands for a value, and no decimal lies strictly between
* `Decimal.RoundsTo`: some units of a decimal place are nearest to a value, and the place is the
  last one of use
* `Decimal.Rounded`: what a value is rounded to
* `Decimal.LongDivision.Nearest`: a number is nearest to a value, and of two neighbours the even one

## Main results

* `Decimal.RoundsTo.toRat_eq`: the rounded value is told by the exact one
* `Decimal.Rounded.faithful`, `Decimal.Rounded.close`: it stands for it, and is right to 27 digits
  or 28 places
* `Decimal.add_rounded`, `Decimal.sub_rounded`, `Decimal.mul_rounded`, `Decimal.div_rounded`: the
  operations round
* `Decimal.exists_add_iff`, `Decimal.exists_mul_iff`, `Decimal.exists_div_iff`: they have a result
  within the range only
-/

namespace MarketFeed.Decimal

/-! ## No decimal between -/

/-- A decimal stands for a value: no decimal lies strictly between the two. -/
structure Faithful (q : ℚ) (x : Decimal) : Prop where
  ge : ∀ y : Decimal, y.toRat ≤ q → y.toRat ≤ x.toRat
  le : ∀ y : Decimal, q ≤ y.toRat → x.toRat ≤ y.toRat

namespace Faithful

variable {q : ℚ} {x : Decimal}

/-- The value of a decimal has no other decimal to stand for it. -/
theorem toRat_eq (h : Faithful q x) {y : Decimal} (hy : y.toRat = q) : x.toRat = q :=
  le_antisymm (hy ▸ h.le y hy.ge) (hy ▸ h.ge y hy.le)

theorem refl (x : Decimal) : Faithful x.toRat x := ⟨fun _ => id, fun _ => id⟩

theorem nonneg (h : Faithful q x) (hq : 0 ≤ q) : 0 ≤ x.toRat := by
  simpa using h.ge zero (by simpa using hq)

theorem nonpos (h : Faithful q x) (hq : q ≤ 0) : x.toRat ≤ 0 := by
  simpa using h.le zero (by simpa using hq)

theorem neg (h : Faithful q x) : Faithful (-q) x.neg := by
  constructor
  · intro y hy
    have hle := h.le y.neg (by rw [toRat_neg]; linarith)
    rw [toRat_neg] at hle ⊢
    linarith
  · intro y hy
    have hge := h.ge y.neg (by rw [toRat_neg]; linarith)
    rw [toRat_neg] at hge ⊢
    linarith

/-- A bound that is a decimal holds for the rounded value as well. -/
theorem abs_le_toRat (h : Faithful q x) {y : Decimal} (hy : |q| ≤ y.toRat) :
    |x.toRat| ≤ y.toRat := by
  obtain ⟨hlower, hupper⟩ := abs_le.mp hy
  refine abs_le.mpr ⟨?_, h.le y hupper⟩
  rw [← toRat_neg] at hlower ⊢
  exact h.ge y.neg hlower

end Faithful

/-! ## Nearest at the last place -/

/-- `k` units of the place `p` are nearest to a value, and even if `k` is not the only such number.
Unless they are the value itself, decimals have no further place, or the coefficient has no room for
one more digit. -/
structure RoundsTo (q : ℚ) (k p : ℤ) : Prop where
  near : 2 * |k - q * 10 ^ p| ≤ 1
  even : 2 * |k - q * 10 ^ p| = 1 → Even k
  last : k = q * 10 ^ p ∨ 28 ≤ p ∨ limit - 1 / 2 ≤ |q| * 10 ^ (p + 1)

/-- A decimal is a whole number of units of any place from its last one on. -/
theorem exists_units (y : Decimal) {p : ℤ} (hp : y.scale ≤ p) : ∃ j : ℤ, y.toRat * 10 ^ p = j := by
  obtain ⟨n, rfl⟩ := Int.le.dest hp
  refine ⟨y.coefficient * 10 ^ n, ?_⟩
  rw [toRat_eq_div, zpow_add₀ (by norm_num), zpow_natCast, zpow_natCast]
  push_cast
  field_simp

/-- A coefficient is no smaller than the units of an earlier place. -/
theorem abs_units_le (y : Decimal) {p : ℤ} (hp : p ≤ y.scale) :
    |y.toRat| * 10 ^ p ≤ limit - 1 := by
  have hlt : y.coefficient.natAbs + 1 ≤ limit := y.coefficient_lt
  have hcast : (y.coefficient.natAbs : ℚ) + 1 ≤ limit := by exact_mod_cast hlt
  have hpow : (10 : ℚ) ^ p ≤ 10 ^ y.scale := by
    rw [← zpow_natCast]
    exact zpow_le_zpow_right₀ (by norm_num) hp
  calc |y.toRat| * 10 ^ p
      ≤ |y.toRat| * 10 ^ y.scale := by gcongr
    _ = y.coefficient.natAbs := by rw [abs_toRat, div_mul_cancel₀ _ (ten_pow_pos _).ne']
    _ ≤ limit - 1 := by linarith

namespace RoundsTo

variable {q : ℚ} {k k' p p' : ℤ} {x y : Decimal}

theorem neg (h : RoundsTo q k p) : RoundsTo (-q) (-k) p := by
  have hdiff : |((-k : ℤ) : ℚ) - -q * 10 ^ p| = |k - q * 10 ^ p| := by
    rw [← abs_neg]
    congr 1
    push_cast
    ring
  refine ⟨hdiff ▸ h.near, fun htie => (h.even (hdiff ▸ htie)).neg, ?_⟩
  rcases h.last with hexact | hplaces | hfull
  · left
    rw [Int.cast_neg, hexact, neg_mul]
  · exact .inr (.inl hplaces)
  · exact .inr (.inr (by rwa [abs_neg]))

/-- The digits that fill a coefficient do not fall short of any decimal with more places. -/
theorem limit_le_of_full (h : RoundsTo q k p) (hq : 0 ≤ q)
    (hfull : limit - 1 / 2 ≤ |q| * 10 ^ (p + 1)) : (limit : ℚ) ≤ 10 * k := by
  have hnear := (abs_le.mp (show |k - q * 10 ^ p| ≤ 1 / 2 by linarith [h.near])).1
  rw [abs_of_nonneg hq, zpow_add_one₀ (by norm_num), ← mul_assoc] at hfull
  have hlt : ((limit : ℤ) : ℚ) < ((10 * k + 6 : ℤ) : ℚ) := by
    push_cast
    linarith
  have hint : (limit : ℤ) < 10 * k + 6 := by exact_mod_cast hlt
  have hlimit : (limit : ℤ) % 10 = 6 := by decide
  have hle : (limit : ℤ) ≤ 10 * k := by omega
  exact_mod_cast hle

theorem toRat_le (h : RoundsTo q k p) (hy : y.toRat ≤ q) : y.toRat ≤ k / 10 ^ p := by
  have hpow := LongDivision.zpow_ten_pos p
  have hplace := LongDivision.zpow_ten_pos (p + 1)
  rw [le_div_iff₀ hpow]
  by_cases hgrid : (y.scale : ℤ) ≤ p
  · obtain ⟨j, hj⟩ := exists_units y hgrid
    have hnear := (abs_le.mp (show |k - q * 10 ^ p| ≤ 1 / 2 by linarith [h.near])).1
    have hle : y.toRat * 10 ^ p ≤ q * 10 ^ p := by gcongr
    have hlt : (j : ℚ) < ((k + 1 : ℤ) : ℚ) := by
      push_cast
      linarith
    rw [hj]
    have hint : j < k + 1 := by exact_mod_cast hlt
    exact_mod_cast Int.lt_add_one_iff.mp hint
  · have hunits := abs_units_le y (p := p + 1) (by omega)
    rcases h.last with hexact | hplaces | hfull
    · rw [hexact]
      gcongr
    · have := y.scale_le
      omega
    · rcases le_total 0 q with hq | hq
      · have hlimit := h.limit_le_of_full hq hfull
        have hle : y.toRat * 10 ^ (p + 1) ≤ limit - 1 :=
          (mul_le_mul_of_nonneg_right (le_abs_self _) hplace.le).trans hunits
        rw [zpow_add_one₀ (by norm_num), ← mul_assoc] at hle
        linarith
      · have hle : |q| ≤ |y.toRat| := by
          rw [abs_of_nonpos hq, abs_of_nonpos (hy.trans hq)]
          linarith
        have hscaled := mul_le_mul_of_nonneg_right hle hplace.le
        linarith

/-- **What is nearest at the last place stands for the value.** A decimal with no more places is a
whole number of the same units. One with more places has no room for them beside digits that fill a
coefficient. -/
theorem faithful (h : RoundsTo q k p) (hx : x.toRat = k / 10 ^ p) : Faithful q x := by
  constructor
  · intro y hy
    rw [hx]
    exact h.toRat_le hy
  · intro y hy
    have hneg := h.neg.toRat_le (y := y.neg) (by rw [toRat_neg]; linarith)
    rw [toRat_neg, Int.cast_neg, neg_div] at hneg
    rw [hx]
    linarith

/-- A number of units below the limit is nearest to a value only if that falls short of the limit
by more than half: the last number below the limit is odd, so the middle belongs to the limit. -/
theorem abs_mul_lt (h : RoundsTo q k p) (hk : |k| < limit) : |q| * 10 ^ p < limit - 1 / 2 := by
  have habs : |q| * 10 ^ p = |q * 10 ^ p| := by
    rw [abs_mul, abs_of_pos (LongDivision.zpow_ten_pos p)]
  have htriangle := (abs_abs_sub_abs_le (q * 10 ^ p) k).trans_eq (abs_sub_comm _ _)
  have hexcess := (le_abs_self _).trans htriangle
  have hnear := h.near
  rw [habs]
  by_contra! hge
  have hcast : |(k : ℚ)| + 1 ≤ limit := by
    rw [← Int.cast_abs]
    exact_mod_cast hk
  have htie : 2 * |k - q * 10 ^ p| = 1 := by linarith
  have hlast : |(k : ℚ)| = limit - 1 := by linarith
  have heven := even_abs.mpr (h.even htie)
  have hint : |k| = limit - 1 := by
    rw [← Int.cast_abs] at hlast
    exact_mod_cast hlast
  rw [hint] at heven
  exact absurd heven (by decide)

/-- **The rounded value is told by the exact one.** At one place there is one nearest even number of
units; and what fills a coefficient at one place would not fit at a later one. -/
theorem toRat_eq (h : RoundsTo q k p) (h' : RoundsTo q k' p') (hk : |k| < limit)
    (hk' : |k'| < limit) (hp : p ≤ 28) (hp' : p' ≤ 28) (hx : x.toRat = k / 10 ^ p)
    (hy : y.toRat = k' / 10 ^ p') : x.toRat = y.toRat := by
  wlog hle : p ≤ p' generalizing k k' p p' x y
  · exact (this h' h hk' hk hp' hp hy hx (not_le.mp hle).le).symm
  rcases hle.eq_or_lt with rfl | hlt
  · have hpow := LongDivision.zpow_ten_pos p
    have hnear := h.near
    have hnear' := h'.near
    have hone : |(k - k' : ℚ)| ≤ |k - q * 10 ^ p| + |k' - q * 10 ^ p| := by
      have := abs_sub (k - q * 10 ^ p) (k' - q * 10 ^ p)
      rwa [sub_sub_sub_cancel_right] at this
    have hsame : k = k' := by
      by_contra hne
      have hdiff : (1 : ℚ) ≤ |(k - k' : ℚ)| := by
        rw [← Int.cast_sub, ← Int.cast_abs]
        exact_mod_cast Int.one_le_abs (sub_ne_zero.mpr hne)
      have heven := (h.even (by linarith)).sub (h'.even (by linarith))
      have hle : |(k - k' : ℚ)| ≤ 1 := by linarith
      rw [← Int.cast_sub, ← Int.cast_abs] at hle
      have hint : |k - k'| ≤ 1 := by exact_mod_cast hle
      obtain ⟨hlow, hhigh⟩ := abs_le.mp hint
      obtain ⟨j, hj⟩ := heven
      omega
    rw [hx, hy, hsame]
  rcases h.last with hexact | hplaces | hfull
  · have hq : x.toRat = q := by
      rw [hx, hexact, mul_div_cancel_right₀ _ (LongDivision.zpow_ten_pos p).ne']
    exact hq.trans ((h'.faithful hy).toRat_eq hq).symm
  · omega
  · have hpow : (10 : ℚ) ^ (p + 1) ≤ 10 ^ p' := zpow_le_zpow_right₀ (by norm_num) hlt
    have hmono := mul_le_mul_of_nonneg_left hpow (abs_nonneg q)
    exact absurd (hfull.trans hmono) (h'.abs_mul_lt hk').not_ge

/-- Units of a place that leave `j` digits off a coefficient. -/
theorem of_dropped {c : ℤ} {j s : ℕ} (hnear : 2 * |k * 10 ^ j - c| ≤ 10 ^ j)
    (heven : 2 * |k * 10 ^ j - c| = 10 ^ j → Even k)
    (hlast : j = 0 ∨ s = 28 ∨ (2 * limit - 1) * 10 ^ j ≤ 20 * |c|) :
    RoundsTo (c / 10 ^ (j + s)) k s := by
  have hpow := ten_pow_pos j
  have hscaled : (c : ℚ) / 10 ^ (j + s) * 10 ^ (s : ℤ) = c / 10 ^ j := by
    rw [zpow_natCast, pow_add]
    field_simp
  have hdiff : 2 * |(k : ℚ) - c / 10 ^ j| = (2 * |k * 10 ^ j - c| : ℤ) / 10 ^ j := by
    have hsub : (k : ℚ) - c / 10 ^ j = ((k * 10 ^ j - c : ℤ) : ℚ) / 10 ^ j := by
      push_cast
      field_simp
    rw [hsub, abs_div, abs_of_pos hpow, ← Int.cast_abs]
    push_cast
    ring
  refine ⟨?_, ?_, ?_⟩
  · rw [hscaled, hdiff, div_le_one hpow]
    exact_mod_cast hnear
  · rw [hscaled, hdiff, div_eq_one_iff_eq hpow.ne']
    exact fun htie => heven (by exact_mod_cast htie)
  · rw [hscaled]
    rcases hlast with rfl | hplaces | hfull
    · left
      rw [pow_zero, mul_one] at hnear
      have hzero := abs_nonpos_iff.mp (show |k - c| ≤ 0 by omega)
      have hk : k = c := by omega
      rw [hk, pow_zero, div_one]
    · exact .inr (.inl (by omega))
    · refine .inr (.inr ?_)
      have hcast : (2 * (limit : ℚ) - 1) * 10 ^ j ≤ 20 * |(c : ℚ)| := by exact_mod_cast hfull
      have habs := congrArg abs hscaled
      rw [abs_mul, abs_of_pos (LongDivision.zpow_ten_pos s), abs_div (c : ℚ) (10 ^ j),
        abs_of_pos hpow] at habs
      rw [zpow_add_one₀ (by norm_num), ← mul_assoc, habs, div_mul_eq_mul_div, le_div_iff₀ hpow]
      linarith

end RoundsTo

/-! ## What a value is rounded to -/

/-- What a value is rounded to: at the last place of use, of two neighbours the even one. -/
def Rounded (q : ℚ) (x : Decimal) : Prop :=
  ∃ k p : ℤ, x.toRat = k / 10 ^ p ∧ |k| < limit ∧ 0 ≤ p ∧ p ≤ 28 ∧ RoundsTo q k p

namespace Rounded

variable {q : ℚ} {x y : Decimal}

theorem refl (x : Decimal) : Rounded x.toRat x := by
  have hexact : (x.coefficient : ℚ) = x.toRat * 10 ^ (x.scale : ℤ) := by
    rw [toRat_eq_div, zpow_natCast, div_mul_cancel₀ _ (ten_pow_pos _).ne']
  refine ⟨x.coefficient, x.scale, ?_, ?_, Nat.cast_nonneg _, by exact_mod_cast x.scale_le, ?_⟩
  · rw [toRat_eq_div, zpow_natCast]
  · rw [Int.abs_eq_natAbs]
    exact_mod_cast x.coefficient_lt
  · rw [← sub_eq_zero] at hexact
    refine ⟨by rw [hexact]; norm_num, ?_, .inl (sub_eq_zero.mp hexact)⟩
    rw [hexact]
    norm_num

theorem faithful (h : Rounded q x) : Faithful q x := by
  obtain ⟨k, p, hx, -, -, -, hround⟩ := h
  exact hround.faithful hx

/-- **A value is rounded to one decimal**, as far as values go. -/
theorem toRat_eq (h : Rounded q x) (h' : Rounded q y) : x.toRat = y.toRat := by
  obtain ⟨k, p, hx, hk, -, hp, hround⟩ := h
  obtain ⟨k', p', hy, hk', -, hp', hround'⟩ := h'
  exact hround.toRat_eq hround' hk hk' hp hp' hx hy

/-- What is rounded to a decimal is in range. -/
theorem inRange (h : Rounded q x) : InRange q := by
  obtain ⟨k, p, -, hk, hp, -, hround⟩ := h
  have hpow : (1 : ℚ) ≤ 10 ^ p := one_le_zpow₀ (by norm_num) hp
  have hle := mul_le_mul_of_nonneg_left hpow (abs_nonneg q)
  rw [mul_one] at hle
  exact hle.trans_lt (hround.abs_mul_lt hk)

/-- **A rounded value is right to 27 digits or 28 places.** -/
theorem close (h : Rounded q x) : |x.toRat - q| ≤ |q| / 10 ^ 27 + 1 / 10 ^ 28 := by
  obtain ⟨k, p, hx, -, -, hp, hround⟩ := h
  have hpow := LongDivision.zpow_ten_pos p
  have hscaled : |x.toRat - q| * 10 ^ p = |k - q * 10 ^ p| := by
    rw [← abs_of_pos hpow, ← abs_mul, abs_of_pos hpow, sub_mul, hx, div_mul_cancel₀ _ hpow.ne']
  have hnear := hround.near
  have hrelative : (0 : ℚ) ≤ |q| / 10 ^ 27 := by positivity
  rcases hround.last with hexact | hplaces | hfull
  · rw [hx, hexact, mul_div_cancel_right₀ _ hpow.ne', sub_self, abs_zero]
    positivity
  · obtain rfl : p = 28 := le_antisymm hp hplaces
    have hle : |x.toRat - q| * 10 ^ (28 : ℕ) ≤ 1 := by
      rw [← zpow_natCast]
      exact hscaled.trans_le (by linarith)
    refine le_add_of_nonneg_of_le hrelative ?_
    rwa [le_div_iff₀ (by positivity)]
  · refine le_add_of_le_of_nonneg ?_ (by positivity)
    rw [zpow_add_one₀ (by norm_num), ← mul_assoc] at hfull
    have hmany : (10 ^ 28 : ℚ) ≤ limit - 1 / 2 := by norm_num [limit]
    rw [le_div_iff₀ (by positivity)]
    refine le_of_mul_le_mul_right ?_ hpow
    rw [mul_right_comm, hscaled]
    linarith

end Rounded

/-- There is a result if and only if the value is in range. -/
theorem exists_iff_inRange {q : ℚ} {o : Option Decimal} (hround : ∀ x, o = some x → Rounded q x)
    (hexists : InRange q → ∃ x, o = some x) : (∃ x, o = some x) ↔ InRange q :=
  ⟨fun ⟨x, hx⟩ => (hround x hx).inRange, hexists⟩

/-! ## Roundings -/

theorem even_divNearestEven {m d : ℕ} (hd : 0 < d)
    (h : 2 * |(divNearestEven m d * d : ℤ) - m| = d) : Even (divNearestEven m d) := by
  have hdiv : (d : ℤ) * (m / d : ℕ) + (m % d : ℕ) = m := by exact_mod_cast Nat.div_add_mod m d
  have hlt : m % d < d := Nat.mod_lt _ hd
  rw [mul_comm] at hdiv
  simp only [divNearestEven] at h ⊢
  rw [Nat.even_iff]
  split_ifs at h ⊢ with hup
  · have hround : ((m / d + 1 : ℕ) * d : ℤ) - m = d - (m % d : ℕ) := by
      push_cast at hdiv ⊢
      linarith
    rw [hround, abs_of_nonneg (by omega)] at h
    omega
  · have hround : ((m / d : ℕ) * d : ℤ) - m = -(m % d : ℕ) := by linarith
    rw [hround, abs_neg, abs_of_nonneg (by omega)] at h
    omega

/-- Of two neighbours that are equally near, the even one is taken. -/
theorem even_roundOff {c : ℤ} {n : ℕ} (h : 2 * |roundOff c n * 10 ^ n - c| = 10 ^ n) :
    Even (roundOff c n) := by
  rcases eq_or_ne c 0 with rfl | hc
  · simp [roundOff]
  have hpow : 0 < 10 ^ n := by positivity
  have hsplit : roundOff c n * 10 ^ n - c =
      c.sign * (divNearestEven c.natAbs (10 ^ n) * (10 ^ n : ℕ) - c.natAbs) := by
    rw [mul_sub, Int.sign_mul_natAbs, roundOff, Nat.pow_eq, mul_assoc]
    push_cast
    rfl
  rw [hsplit, abs_mul, Int.abs_sign_of_ne_zero hc, one_mul] at h
  have heven := even_divNearestEven hpow (m := c.natAbs) (by exact_mod_cast h)
  rw [roundOff, Nat.pow_eq]
  exact ((Int.even_coe_nat _).mpr heven).mul_left _

/-- A coefficient can only be rounded up to the limit, and what is then rounded off once more is
four units. -/
theorem roundOff_at_limit {r : ℤ} (h : r.natAbs = limit) : |roundOff r 1 * 10 - r| = 4 := by
  rcases Int.natAbs_eq_iff.mp h with rfl | rfl
  · decide
  · decide

/-- Where the rounding carries, the coefficient is just below the limit and is rounded up to it. The
digit that goes then is the last one of the limit. -/
theorem roundsTo_of_carry {c r : ℤ} {n s : ℕ} (hround : 2 * |r * 10 ^ n - c| ≤ 10 ^ n)
    (hlt : |c| < limit * 10 ^ n) (hcarry : limit ≤ r.natAbs) :
    RoundsTo (c / 10 ^ (n + 1 + s)) (roundOff r 1) s := by
  have hpow : (0 : ℤ) < 10 ^ n := by positivity
  have hle : |r| * 10 ^ n ≤ |r * 10 ^ n - c| + |c| := by
    rw [← abs_of_pos hpow, ← abs_mul, abs_of_pos hpow]
    simpa using abs_add_le (r * 10 ^ n - c) c
  have hlimit : r.natAbs = limit := by
    refine le_antisymm (Nat.lt_succ_iff.mp ?_) hcarry
    have hlt : |r| * 10 ^ n < (limit + 1) * 10 ^ n := by linarith
    have := lt_of_mul_lt_mul_right hlt hpow.le
    rw [Int.abs_eq_natAbs] at this
    exact_mod_cast this
  rw [Int.abs_eq_natAbs, hlimit] at hle
  have hsplit : roundOff r 1 * 10 ^ (n + 1) - c =
      (roundOff r 1 * 10 - r) * 10 ^ n + (r * 10 ^ n - c) := by
    ring
  have htriangle := abs_add_le ((roundOff r 1 * 10 - r) * 10 ^ n) (r * 10 ^ n - c)
  rw [abs_mul, abs_of_pos hpow, roundOff_at_limit hlimit, ← hsplit] at htriangle
  have hten : (10 : ℤ) ^ (n + 1) = 10 ^ n * 10 := pow_succ 10 n
  have hnear : 2 * |roundOff r 1 * 10 ^ (n + 1) - c| < 10 ^ (n + 1) := by linarith
  refine RoundsTo.of_dropped hnear.le (fun htie => absurd htie hnear.ne) (.inr (.inr ?_))
  rw [hten]
  linarith

theorem roundsTo_fit {c : ℤ} {s : ℕ} {x : Decimal} (h : fit c s = some x) :
    RoundsTo (c / 10 ^ s) x.coefficient x.scale := by
  have hround := abs_roundOff_sub_le c (surplus c.natAbs s)
  have heven := @even_roundOff c (surplus c.natAbs s)
  have hfits := (surplus_spec c.natAbs s).1
  have hdropped := surplus_cases c.natAbs s
  have hcases := fit_cases h
  generalize surplus c.natAbs s = n at *
  rcases hcases with ⟨hcoef, hscale⟩ | ⟨hcoef, hscale, hcarry⟩
  · rw [← hscale]
    refine RoundsTo.of_dropped (hcoef ▸ hround) (hcoef ▸ heven) ?_
    rcases hdropped with hnone | hplaces | hmany
    · exact .inl hnone
    · exact .inr (.inl (by omega))
    · refine .inr (.inr ?_)
      have hpow : (0 : ℤ) < 10 ^ n := by positivity
      have hcast : (limit * 10 ^ n : ℤ) ≤ 10 * |c| := by
        rw [Int.abs_eq_natAbs]
        exact_mod_cast hmany
      linarith
  · have hlt : |c| < limit * 10 ^ n := by
      rw [Int.abs_eq_natAbs]
      exact_mod_cast (Nat.div_lt_iff_lt_mul (by positivity)).mp hfits
    rw [← hscale, hcoef]
    exact roundsTo_of_carry hround hlt hcarry

theorem fit_rounded {c : ℤ} {s : ℕ} {x : Decimal} (h : fit c s = some x) :
    Rounded (c / 10 ^ s) x := by
  refine ⟨x.coefficient, x.scale, ?_, ?_, Nat.cast_nonneg _, by exact_mod_cast x.scale_le,
    roundsTo_fit h⟩
  · rw [toRat_eq_div, zpow_natCast]
  · rw [Int.abs_eq_natAbs]
    exact_mod_cast x.coefficient_lt

/-! ## Sums and products -/

variable {a b x : Decimal}

theorem add_rounded (h : a.add b = some x) : Rounded (a.toRat + b.toRat) x := by
  unfold add at h
  split_ifs at h with ha hb
  · cases h
    rw [toRat_eq_zero_iff.mpr ha, zero_add]
    exact .refl b
  · cases h
    rw [toRat_eq_zero_iff.mpr hb, add_zero]
    exact .refl a
  · rw [toRat_add]
    exact fit_rounded h

theorem sub_rounded (h : a.sub b = some x) : Rounded (a.toRat - b.toRat) x := by
  have hadd := add_rounded h
  rwa [toRat_neg, ← sub_eq_add_neg] at hadd

/-- So small a product is nearest to zero at the last place. -/
theorem rounded_zero {q : ℚ} (h : 2 * |q| < 1 / 10 ^ 28) : Rounded q zero := by
  have hunits : 2 * |((0 : ℤ) : ℚ) - q * 10 ^ (28 : ℤ)| < 1 := by
    rw [Int.cast_zero, zero_sub, abs_neg, abs_mul, abs_of_pos (LongDivision.zpow_ten_pos 28)]
    rw [lt_div_iff₀ (by positivity)] at h
    calc 2 * (|q| * 10 ^ (28 : ℤ)) = 2 * |q| * 10 ^ 28 := by
          rw [← mul_assoc]
          rfl
      _ < 1 := h
  refine ⟨0, 28, ?_, by decide, by decide, le_rfl, hunits.le, ?_, .inr (.inl le_rfl)⟩
  · rw [toRat_zero, Int.cast_zero, zero_div]
  · exact fun htie => absurd htie hunits.ne

theorem mul_rounded (h : a.mul b = some x) : Rounded (a.toRat * b.toRat) x := by
  unfold mul at h
  split_ifs at h with hzero hsmall
  · cases h
    have hprod : a.toRat * b.toRat = zero.toRat := by
      rw [toRat_zero, mul_eq_zero, toRat_eq_zero_iff, toRat_eq_zero_iff]
      exact hzero
    rw [hprod]
    exact .refl zero
  · cases h
    exact rounded_zero (abs_mul_lt_of_short hsmall.1 hsmall.2.1 hsmall.2.2)
  · rw [toRat_mul]
    exact fit_rounded h

/-- A sum has a result if and only if it is in range. -/
theorem exists_add_iff : (∃ x, a.add b = some x) ↔ InRange (a.toRat + b.toRat) :=
  exists_iff_inRange (fun _ => add_rounded) exists_add

/-- A product has a result if and only if it is in range. -/
theorem exists_mul_iff : (∃ x, a.mul b = some x) ↔ InRange (a.toRat * b.toRat) :=
  exists_iff_inRange (fun _ => mul_rounded) exists_mul

/-! ## Quotients -/

namespace LongDivision

variable {q r d : ℕ} {places : ℤ} {rest : Bool} {Q : ℚ} {x : LongDivision}

/-- A number is nearest to a value, and of two neighbours the even one. -/
structure Nearest (k : ℕ) (y : ℚ) : Prop where
  low : (k : ℚ) ≤ y + 1 / 2
  high : y ≤ k + 1 / 2
  even : (k : ℚ) = y + 1 / 2 ∨ y = k + 1 / 2 → Even k

/-- What is `y` units of a place is rounded to the nearest number of them. -/
theorem Nearest.roundsTo {k : ℕ} {y : ℚ} (h : Nearest k y) (hscaled : Q * 10 ^ places = y)
    (hy : 0 ≤ y) (hlast : k = y ∨ 28 ≤ places ∨ limit - 1 / 2 ≤ 10 * y) :
    RoundsTo Q k places := by
  obtain ⟨hlow, hhigh, heven⟩ := h
  have hQ : 0 ≤ Q := nonneg_of_mul_nonneg_left (hscaled ▸ hy) (zpow_ten_pos places)
  have hnext : |Q| * 10 ^ (places + 1) = 10 * y := by
    rw [abs_of_nonneg hQ, zpow_add_one₀ (by norm_num), ← mul_assoc, hscaled, mul_comm]
  have habs : |(k : ℚ) - y| ≤ 1 / 2 := abs_le.mpr ⟨by linarith, by linarith⟩
  refine ⟨?_, ?_, ?_⟩
  · rw [Int.cast_natCast, hscaled]
    linarith
  · rw [Int.cast_natCast, hscaled, Int.even_coe_nat]
    intro htie
    rcases abs_cases ((k : ℚ) - y) with ⟨hsub, -⟩ | ⟨hsub, -⟩
    · exact heven (.inl (by linarith))
    · exact heven (.inr (by linarith))
  · rwa [Int.cast_natCast, hscaled, hnext]

/-- Rounding up from one half on brings the nearest number. -/
theorem nearest_round (hr : r < d) :
    Nearest (if d < 2 * r ∨ (2 * r = d ∧ q % 2 = 1) then q + 1 else q) (q + r / d) := by
  have hd : (0 : ℚ) < d := by exact_mod_cast (Nat.zero_le r).trans_lt hr
  obtain ⟨hrest, hrest_lt⟩ := rest_mem hr
  have hhalf : 2 * (r / d : ℚ) = (2 * r : ℕ) / d := by
    push_cast
    ring
  have hdouble (h : ((2 * r : ℕ) : ℚ) / d = 1) : 2 * r = d := by
    rw [div_eq_one_iff_eq hd.ne'] at h
    exact_mod_cast h
  split_ifs with hup
  · have hle : (1 : ℚ) ≤ (2 * r : ℕ) / d := by
      rw [one_le_div hd]
      exact_mod_cast (show d ≤ 2 * r by omega)
    have hcast : ((q + 1 : ℕ) : ℚ) = q + 1 := Nat.cast_succ q
    refine ⟨by linarith, by linarith, fun htie => ?_⟩
    have hone := hdouble (by rcases htie with h | h <;> linarith)
    rw [Nat.even_iff]
    omega
  · have hle : ((2 * r : ℕ) : ℚ) / d ≤ 1 := by
      rw [div_le_one hd]
      exact_mod_cast (show 2 * r ≤ d by omega)
    refine ⟨by linarith, by linarith, fun htie => ?_⟩
    have hone := hdouble (by rcases htie with h | h <;> linarith)
    rw [Nat.even_iff]
    omega

/-- The last digit goes. It is no more than five away from what replaces it, with what is left over;
with nothing left over, five goes to the even side. -/
theorem nearest_shorten (hr : r < d) (hrest : rest = true ↔ r ≠ 0) :
    Nearest (q / 10 + if 5 < q % 10 ∨ (q % 10 = 5 ∧ (rest ∨ q / 10 % 2 = 1)) then 1 else 0)
      ((q + r / d) / 10) := by
  have hd : (0 : ℚ) < d := by exact_mod_cast (Nat.zero_le r).trans_lt hr
  obtain ⟨hleft, hleft_lt⟩ := rest_mem hr
  have hdigits : ((q / 10 : ℕ) : ℚ) * 10 + (q % 10 : ℕ) = q := by
    exact_mod_cast Nat.div_add_mod' q 10
  have hmod : ((q % 10 : ℕ) : ℚ) ≤ 9 := by exact_mod_cast (show q % 10 ≤ 9 by omega)
  have hmod' : (0 : ℚ) ≤ (q % 10 : ℕ) := Nat.cast_nonneg _
  split_ifs with hhalf
  · have hge : (5 : ℚ) ≤ (q % 10 : ℕ) := by exact_mod_cast (show 5 ≤ q % 10 by omega)
    have hcast : ((q / 10 + 1 : ℕ) : ℚ) = (q / 10 : ℕ) + 1 := Nat.cast_succ _
    refine ⟨by linarith, by linarith, fun htie => ?_⟩
    have hleft₀ : (r : ℚ) / d ≤ 0 := by
      rcases htie with h | h <;> linarith
    have hr₀ : r = 0 := by
      have : (r : ℚ) ≤ 0 := by
        rwa [div_le_iff₀ hd, zero_mul] at hleft₀
      exact_mod_cast this.antisymm (Nat.cast_nonneg r)
    have hfive : ((q % 10 : ℕ) : ℚ) = 5 := by
      rw [hr₀, Nat.cast_zero, zero_div] at htie
      rcases htie with h | h <;> linarith
    have hfive' : q % 10 = 5 := by exact_mod_cast hfive
    have hodd : q / 10 % 2 = 1 := by
      rcases hhalf with hgt | ⟨-, hrest' | hodd⟩
      · omega
      · exact absurd hr₀ (hrest.mp hrest')
      · exact hodd
    rw [Nat.even_iff]
    omega
  · rw [Nat.add_zero]
    rcases Nat.lt_or_ge (q % 10) 5 with hlt | hge
    · have hle : ((q % 10 : ℕ) : ℚ) ≤ 4 := by exact_mod_cast (show q % 10 ≤ 4 by omega)
      refine ⟨by linarith, by linarith, fun htie => ?_⟩
      rcases htie with h | h <;> linarith
    · have hfive : q % 10 = 5 := by omega
      have hzero : r = 0 := by
        by_contra hr
        exact hhalf (.inr ⟨hfive, .inl (hrest.mpr hr)⟩)
      have hstay : q / 10 % 2 ≠ 1 := fun hodd => hhalf (.inr ⟨hfive, .inr hodd⟩)
      rw [hfive] at hdigits
      rw [hzero, Nat.cast_zero, zero_div]
      push_cast at hdigits
      refine ⟨by linarith, by linarith, fun _ => ?_⟩
      rw [Nat.even_iff]
      omega

/-- The limit loses its last digit, which is a six. -/
theorem nearest_limit {y : ℚ} (h : Nearest limit y) (hy : y < limit) :
    Nearest (limit / 10 + 1) (y / 10) := by
  have hlast : ((limit / 10 + 1 : ℕ) : ℚ) * 10 = limit + 4 := by
    exact_mod_cast (show (limit / 10 + 1) * 10 = limit + 4 by decide)
  have hlow := h.low
  refine ⟨by linarith, by linarith, ?_⟩
  rintro (htie | htie) <;> linarith

/-- A quotient without room for another digit is rounded to nearest. -/
theorem roundsTo_round (hq : q < limit) (hr : r < d) (hfull : 28 ≤ places ∨ limit ≤ 10 * q)
    (hval : valueOf d q r places = Q) (h : round q r d places = some x) :
    RoundsTo Q x.q x.places := by
  obtain ⟨hrest, hrest_lt⟩ := rest_mem hr
  have hscaled := scaled_of_valueOf hval
  have hnearest := nearest_round (q := q) hr
  simp only [round] at h
  generalize (if d < 2 * r ∨ (2 * r = d ∧ q % 2 = 1) then q + 1 else q) = q' at h hnearest
  split_ifs at h with hcarry
  · unfold checked at h
    split_ifs at h
    cases h
    have hcast : (q : ℚ) + 1 ≤ limit := by exact_mod_cast hq
    rw [hcarry] at hnearest ⊢
    have hlow := hnearest.low
    exact (nearest_limit hnearest (by linarith)).roundsTo (scaled_of_sub_one hscaled)
      (by positivity) (.inr (.inr (by linarith)))
  · cases h
    refine hnearest.roundsTo hscaled (by positivity) (.inr (hfull.imp_right fun hmany => ?_))
    have hcast : (limit : ℚ) ≤ 10 * q := by exact_mod_cast hmany
    linarith

/-- A quotient one digit too long is rounded to nearest at the digit before. -/
theorem roundsTo_shorten (hq : limit ≤ q) (hr : r < d) (hrest : rest = true ↔ r ≠ 0)
    (hval : valueOf d q r places = Q) (h : shorten q places rest = some x) :
    RoundsTo Q x.q x.places := by
  obtain ⟨hleft, -⟩ := rest_mem hr
  have hnearest := nearest_shorten (q := q) hr hrest
  simp only [shorten] at h
  generalize (if 5 < q % 10 ∨ (q % 10 = 5 ∧ (rest ∨ q / 10 % 2 = 1)) then 1 else 0) = up
    at h hnearest
  unfold checked at h
  split_ifs at h
  cases h
  have hcast : (limit : ℚ) ≤ q := by exact_mod_cast hq
  exact hnearest.roundsTo (scaled_of_sub_one (scaled_of_valueOf hval)) (by positivity)
    (.inr (.inr (by linarith)))

/-- **Long division rounds to nearest** at the last place for which there is room. -/
theorem Ends.roundsTo (h : Ends d Q x) : RoundsTo Q x.q x.places := by
  cases h with
  | exact hq hplaces hle hval =>
    have hscaled := scaled_of_valueOf hval
    rw [Nat.cast_zero, zero_div, add_zero] at hscaled
    refine Nearest.roundsTo ⟨by linarith, by linarith, ?_⟩ hscaled (Nat.cast_nonneg _) (.inl rfl)
    rintro (htie | htie) <;> linarith
  | round hq hr hplaces hle hfull hval h => exact roundsTo_round hq hr hfull hval h
  | shorten hq hlt hr hle hval h => exact roundsTo_shorten hq hr (by simp) hval h

end LongDivision

/-- The sign of a quotient stands outside of its division. -/
theorem div_rounded (h : a.div b = some x) : Rounded (a.toRat / b.toRat) x := by
  unfold div at h
  split_ifs at h with hb ha
  · cases h
    rw [toRat_eq_zero_iff.mpr ha, zero_div, ← toRat_zero]
    exact .refl zero
  · dsimp only at h
    split at h
    · exact nomatch h
    next y hy =>
      have hends := ends_of_extend hb hy
      have hbounds := hends.inBounds
      have hround := hends.roundsTo
      have hsign := natAbs_sign_mul_sign ha hb
      have hx := toRat_trim hbounds.places_nonneg (coefficient_of_ofParts? h)
        (scale_of_ofParts? h)
      have hq : |(y.q : ℤ)| < limit := by
        rw [Int.abs_eq_natAbs, Int.natAbs_natCast]
        exact_mod_cast hbounds.q_lt
      have habs := div_eq_sign_mul_abs a b hb
      generalize a.coefficient.sign * b.coefficient.sign = σ at *
      rw [habs]
      rcases Int.natAbs_eq σ with hσ | hσ
      · rw [hσ, hsign, Nat.cast_one, Int.cast_one, one_mul] at hx ⊢
        refine ⟨y.q, y.places, ?_, hq, hbounds.places_nonneg, hbounds.places_le, hround⟩
        rw [hx, LongDivision.value, Int.cast_natCast]
      · rw [hσ, hsign, Nat.cast_one, Int.cast_neg, Int.cast_one, neg_one_mul] at hx ⊢
        refine ⟨-y.q, y.places, ?_, by rwa [abs_neg], hbounds.places_nonneg, hbounds.places_le,
          hround.neg⟩
        rw [hx, LongDivision.value, Int.cast_neg, Int.cast_natCast, neg_div]

/-- A quotient has a result if and only if it is in range and the divisor is not zero. -/
theorem exists_div_iff :
    (∃ x, a.div b = some x) ↔ b.toRat ≠ 0 ∧ InRange (a.toRat / b.toRat) := by
  constructor
  · rintro ⟨x, hx⟩
    refine ⟨fun hzero => ?_, (div_rounded hx).inRange⟩
    unfold div at hx
    rw [if_pos (toRat_eq_zero_iff.mp hzero)] at hx
    exact nomatch hx
  · rintro ⟨hb, hrange⟩
    exact exists_div hb hrange

end MarketFeed.Decimal
