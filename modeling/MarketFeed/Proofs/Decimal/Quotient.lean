import MarketFeed.Proofs.Decimal.Exact

/-!
# Results within the range

A sum, a product or a quotient that is rounded has a result as long as its value rounds to a whole
number that is a coefficient. For the quotient this is a matter of long division: in every group of
digits the quotient found so far and what is left over make up the same value, and the range of
coefficients can only be left by a digit that is then taken back.

## Main definitions

* `Decimal.InRange`: a value rounds to a whole number that is a coefficient
* `Decimal.LongDivision.valueOf`: the value of some digits of a quotient and of what is left over
* `Decimal.LongDivision.Ends`: the ways in which the division of a value ends

## Main results

* `Decimal.exists_fit`, `Decimal.exists_add`, `Decimal.exists_mul`, `Decimal.exists_div`: results
  within the range
* `Decimal.LongDivision.exists_extend`: long division finds a quotient within the range
* `Decimal.LongDivision.ends_extend`: whatever it finds, it ends in one of the ways
-/

namespace MarketFeed.Decimal

/-! ## Rounding -/

theorem divNearestEven_le (n d : ℕ) : divNearestEven n d ≤ n / d + 1 := by
  simp only [divNearestEven]
  split
  · exact le_rfl
  · exact Nat.le_succ _

/-- A quotient rounded to nearest is off by no more than half the divisor. -/
theorem abs_divNearestEven_sub_le (m : ℕ) {d : ℕ} (hd : 0 < d) :
    2 * |(divNearestEven m d * d : ℤ) - m| ≤ d := by
  have hdiv : (d : ℤ) * (m / d : ℕ) + (m % d : ℕ) = m := by exact_mod_cast Nat.div_add_mod m d
  have hlt : m % d < d := Nat.mod_lt _ hd
  rw [mul_comm] at hdiv
  simp only [divNearestEven]
  split_ifs with hup
  · have hround : ((m / d + 1 : ℕ) * d : ℤ) - m = d - (m % d : ℕ) := by
      push_cast at hdiv ⊢
      linarith
    rw [hround, abs_of_nonneg (by omega)]
    omega
  · have hround : ((m / d : ℕ) * d : ℤ) - m = -(m % d : ℕ) := by linarith
    rw [hround, abs_neg, abs_of_nonneg (by omega)]
    omega

/-- Whatever is rounded up is more than half way. -/
theorem two_mul_divNearestEven_le (n : ℕ) {d : ℕ} (hd : 0 < d) :
    2 * (divNearestEven n d * d) ≤ 2 * n + d := by
  have hround := abs_divNearestEven_sub_le n hd
  have hle := le_abs_self ((divNearestEven n d * d : ℤ) - n)
  have hcast : (2 * (divNearestEven n d * d : ℕ) : ℤ) ≤ 2 * n + d := by
    push_cast
    linarith
  exact_mod_cast hcast

theorem natAbs_roundOff (c : ℤ) (n : ℕ) :
    (roundOff c n).natAbs = divNearestEven c.natAbs (10 ^ n) := by
  rw [roundOff, Int.natAbs_mul, Nat.pow_eq]
  rcases eq_or_ne c 0 with rfl | hc
  · simp [divNearestEven]
  · rw [Int.natAbs_sign_of_ne_zero hc, Nat.one_mul, Int.natAbs_natCast]

/-- Rounding off moves a coefficient by half a unit of the last digit kept. -/
theorem abs_roundOff_sub_le (c : ℤ) (n : ℕ) : 2 * |roundOff c n * 10 ^ n - c| ≤ 10 ^ n := by
  rcases eq_or_ne c 0 with rfl | hc
  · simp [roundOff]
  have hround := abs_divNearestEven_sub_le c.natAbs (show 0 < 10 ^ n by positivity)
  have hsplit : roundOff c n * 10 ^ n - c =
      c.sign * (divNearestEven c.natAbs (10 ^ n) * (10 ^ n : ℕ) - c.natAbs) := by
    rw [mul_sub, Int.sign_mul_natAbs, roundOff, Nat.pow_eq, mul_assoc]
    push_cast
    rfl
  rw [hsplit, abs_mul, Int.abs_sign_of_ne_zero hc, one_mul]
  exact_mod_cast hround

/-- Digits are dropped for the sake of the scale, or because one digit more is out of range. -/
theorem surplus_cases (m s : ℕ) : surplus m s = 0 ∨ s = surplus m s + 28 ∨
    limit * 10 ^ surplus m s ≤ 10 * m := by
  obtain ⟨-, hge, hleast⟩ := surplus_spec m s
  generalize surplus m s = n at *
  rcases n with - | n
  · exact .inl rfl
  refine .inr ?_
  rcases hge.eq_or_lt with hscale | hscale
  · left
    unfold maxScale at hscale
    omega
  · right
    have hmany : limit ≤ m / 10 ^ n := by
      by_contra hlt
      have := hleast n (by omega) (not_le.mp hlt)
      omega
    have hle := (Nat.le_div_iff_mul_le (by positivity)).mp hmany
    rw [pow_succ, ← mul_assoc]
    omega

/-- The value rounds to a whole number that is a coefficient. -/
def InRange (q : ℚ) : Prop := |q| < limit - 1 / 2

/-- A value within the range can be rounded into it: if the rounding carries there is a place left
to round to, or the value would be too great. -/
theorem exists_fit {c : ℤ} {s : ℕ} (h : 2 * c.natAbs + 10 ^ s < 2 * limit * 10 ^ s) :
    ∃ d, fit c s = some d := by
  have hpow : 0 < 10 ^ s := by positivity
  obtain ⟨hlt, hge, hleast⟩ := surplus_spec c.natAbs s
  have hle : surplus c.natAbs s ≤ s := by
    refine hleast s (Nat.sub_le _ _) ?_
    rw [Nat.div_lt_iff_lt_mul hpow]
    rw [Nat.mul_assoc] at h
    omega
  unfold fit
  generalize surplus c.natAbs s = n at *
  rw [if_neg hle.not_gt]
  have hround := natAbs_roundOff c n
  have hscale : s - n ≤ maxScale := by omega
  rcases Nat.lt_or_ge (roundOff c n).natAbs limit with hfits | hcarry
  · rw [ofParts?_eq_some hfits hscale, Option.some_or]
    exact ⟨_, rfl⟩
  · have hle := two_mul_divNearestEven_le c.natAbs (show 0 < 10 ^ n by positivity)
    have hne : s ≠ n := by
      rintro rfl
      rw [← hround] at hle
      have hmul : limit * 10 ^ s ≤ (roundOff c s).natAbs * 10 ^ s := Nat.mul_le_mul_right _ hcarry
      rw [Nat.mul_assoc] at h
      omega
    have hagain : (roundOff (roundOff c n) 1).natAbs < limit := by
      have hup := divNearestEven_le c.natAbs (10 ^ n)
      have hup' := divNearestEven_le (roundOff c n).natAbs (10 ^ 1)
      have hlimit : 2 ≤ limit := by decide
      rw [natAbs_roundOff]
      omega
    rw [if_neg hne, ofParts?_eq_some hagain (by omega), Option.or_some]
    exact ⟨_, rfl⟩

theorem scale_of_ofParts? {c : ℤ} {s : ℕ} {x : Decimal} (h : ofParts? c s = some x) :
    x.scale = s := by
  unfold ofParts? at h
  split_ifs at h
  cases h
  rfl

theorem coefficient_of_ofParts? {c : ℤ} {s : ℕ} {x : Decimal} (h : ofParts? c s = some x) :
    x.coefficient = c := by
  unfold ofParts? at h
  split_ifs at h
  cases h
  rfl

/-- A rounding keeps all digits but the surplus; if rounding them carries, one digit more is
dropped. -/
theorem fit_cases {c : ℤ} {s : ℕ} {x : Decimal} (h : fit c s = some x) :
    (x.coefficient = roundOff c (surplus c.natAbs s) ∧ surplus c.natAbs s + x.scale = s) ∨
      (x.coefficient = roundOff (roundOff c (surplus c.natAbs s)) 1 ∧
        surplus c.natAbs s + 1 + x.scale = s ∧
          limit ≤ (roundOff c (surplus c.natAbs s)).natAbs) := by
  have hge := (surplus_spec c.natAbs s).2.1
  unfold fit at h
  generalize surplus c.natAbs s = n at *
  dsimp only at h
  split at h
  · exact nomatch h
  next hlt =>
  rcases Option.or_eq_some_iff.mp h with hfit | ⟨hover, hcarry⟩
  · have := scale_of_ofParts? hfit
    exact .inl ⟨coefficient_of_ofParts? hfit, by omega⟩
  · split at hcarry
    · exact nomatch hcarry
    have := scale_of_ofParts? hcarry
    refine .inr ⟨coefficient_of_ofParts? hcarry, by omega, ?_⟩
    by_contra hfits
    rw [ofParts?_eq_some (not_le.mp hfits) (by omega)] at hover
    exact nomatch hover

/-- Only two zeros, which may be spelled differently, are not added alike both ways round. -/
theorem add_comm_of_ne {a b : Decimal} (h : a.toRat ≠ 0 ∨ b.toRat ≠ 0) : a.add b = b.add a := by
  rw [Ne, Ne, toRat_eq_zero_iff, toRat_eq_zero_iff] at h
  unfold add
  by_cases ha : a.coefficient = 0
  · rw [if_pos ha, if_neg (h.resolve_left (not_not.mpr ha)), if_pos ha]
  by_cases hb : b.coefficient = 0
  · rw [if_neg ha, if_pos hb, if_pos hb]
  · have hmax : Nat.max a.scale b.scale = Nat.max b.scale a.scale := Nat.max_comm _ _
    rw [if_neg ha, if_neg hb, if_neg hb, if_neg ha, hmax]
    exact congrArg (fit · _) (add_comm _ _)

/-- The same, said of the value. -/
theorem exists_fit_of_inRange {c : ℤ} {s : ℕ} (h : InRange (c / 10 ^ s)) :
    ∃ d, fit c s = some d := by
  rw [InRange, abs_div, abs_of_pos (ten_pow_pos _), div_lt_iff₀ (ten_pow_pos _), ← Int.cast_abs,
    Int.abs_eq_natAbs, Int.cast_natCast] at h
  have hcast : ((2 * c.natAbs + 10 ^ s : ℕ) : ℚ) < (2 * limit * 10 ^ s : ℕ) := by
    rw [Nat.cast_add, Nat.cast_mul, Nat.cast_mul, Nat.cast_mul, Nat.cast_pow]
    push_cast
    linarith
  exact exists_fit (by exact_mod_cast hcast)

/-- A sum within the range has a result. -/
theorem exists_add {a b : Decimal} (h : InRange (a.toRat + b.toRat)) : ∃ d, a.add b = some d := by
  unfold add
  split_ifs
  · exact ⟨b, rfl⟩
  · exact ⟨a, rfl⟩
  · rw [toRat_add] at h
    exact exists_fit_of_inRange h

/-- A product within the range has a result. -/
theorem exists_mul {a b : Decimal} (h : InRange (a.toRat * b.toRat)) : ∃ d, a.mul b = some d := by
  unfold mul
  split_ifs with hzero hsmall
  · exact ⟨zero, rfl⟩
  · exact ⟨zero, rfl⟩
  · rw [toRat_mul] at h
    exact exists_fit_of_inRange h

/-! ## Long division -/

namespace LongDivision

variable {q r d fuel n : ℕ} {places : ℤ} {inexact : Bool} {Q : ℚ} {x : LongDivision}

/-- the value of a finished quotient -/
def value (x : LongDivision) : ℚ := x.q / 10 ^ x.places

/-- the value of the digits of a quotient and of what is left over -/
def valueOf (d q r : ℕ) (places : ℤ) : ℚ := (q + r / d) / 10 ^ places

theorem zpow_ten_pos (n : ℤ) : (0 : ℚ) < 10 ^ n := zpow_pos (by norm_num) n

/-- The next group of digits and what is left over then make up the same value. -/
theorem valueOf_extend (hd : 0 < d) (q r p : ℕ) (places : ℤ) :
    valueOf d (q * 10 ^ p + r * 10 ^ p / d) (r * 10 ^ p % d) (places + p) =
      valueOf d q r places := by
  have hdiv : ((r * 10 ^ p : ℕ) : ℚ) = d * (r * 10 ^ p / d : ℕ) + (r * 10 ^ p % d : ℕ) := by
    exact_mod_cast (Nat.div_add_mod (r * 10 ^ p) d).symm
  have hd' : (d : ℚ) ≠ 0 := by exact_mod_cast hd.ne'
  have hpow := (zpow_ten_pos places).ne'
  rw [valueOf, valueOf, zpow_add₀ (by norm_num), zpow_natCast]
  push_cast at hdiv ⊢
  field_simp
  linarith

/-- Digits before the point are no more than the value. -/
theorem mul_pow_le_valueOf {k : ℕ} (hk : places + k ≤ 0) :
    (q * 10 ^ k : ℚ) ≤ valueOf d q r places := by
  have hpow : (10 : ℚ) ^ (places + k) ≤ 1 := zpow_le_one_of_nonpos₀ (by norm_num) hk
  have hrest : (0 : ℚ) ≤ r / d := by positivity
  rw [valueOf, le_div_iff₀ (zpow_ten_pos places)]
  calc (q * 10 ^ k * 10 ^ places : ℚ) = q * 10 ^ (places + k) := by
        rw [zpow_add₀ (by norm_num), zpow_natCast]
        ring
    _ ≤ q * 1 := by gcongr
    _ ≤ q + r / d := by linarith

theorem rest_mem (hr : r < d) : (0 : ℚ) ≤ r / d ∧ (r / d : ℚ) < 1 := by
  have hcast : (r : ℚ) < d := by exact_mod_cast hr
  have hd : (0 : ℚ) < d := (Nat.cast_nonneg r).trans_lt hcast
  exact ⟨by positivity, (div_lt_one hd).mpr hcast⟩

/-- In units of the last place the value is the digits with what is left over. -/
theorem scaled_of_valueOf (h : valueOf d q r places = Q) : Q * 10 ^ places = q + r / d := by
  rw [← h, valueOf, div_mul_cancel₀ _ (zpow_ten_pos places).ne']

theorem scaled_of_sub_one {y : ℚ} (h : Q * 10 ^ places = y) : Q * 10 ^ (places - 1) = y / 10 := by
  rw [zpow_sub_one₀ (by norm_num), ← mul_assoc, h, div_eq_mul_inv]

/-- A quotient without room for another digit is rounded. Only a carry without a place left would
be lost, and that value is out of range. -/
theorem exists_round (hr : r < d) (hplaces : 0 ≤ places) (hval : valueOf d q r places = Q)
    (hQ : Q < limit - 1 / 2) : ∃ x, round q r d places = some x := by
  have hd : (0 : ℚ) < d := by exact_mod_cast (Nat.zero_le r).trans_lt hr
  have hscaled := scaled_of_valueOf hval
  simp only [round]
  split_ifs with hup hcarry hcarry
  · have hhalf : (1 / 2 : ℚ) ≤ r / d := by
      rw [div_le_div_iff₀ two_pos hd, one_mul, mul_comm]
      exact_mod_cast (show d ≤ 2 * r by omega)
    have hpositive : ¬ places - 1 < 0 := by
      intro hneg
      obtain rfl : places = 0 := by omega
      have hcast : (q : ℚ) + 1 = limit := by exact_mod_cast hcarry
      rw [zpow_zero, mul_one] at hscaled
      linarith
    exact ⟨_, if_neg hpositive⟩
  · exact ⟨_, rfl⟩
  · have hrest := (rest_mem hr).1
    have hpositive : ¬ places - 1 < 0 := by
      intro hneg
      obtain rfl : places = 0 := by omega
      have hcast : (q : ℚ) = limit := by exact_mod_cast hcarry
      rw [zpow_zero, mul_one] at hscaled
      linarith
    exact ⟨_, if_neg hpositive⟩
  · exact ⟨_, rfl⟩

/-- A quotient one digit too long is shortened. Without places all its digits would stand before the
point and be out of range. -/
theorem exists_shorten (hq : limit ≤ q) (hval : valueOf d q r places = Q) (hQ : Q < limit - 1 / 2)
    (rest : Bool) : ∃ x, shorten q places rest = some x := by
  have hpositive : ¬ places - 1 < 0 := by
    intro hneg
    have hdigits : (q * 10 ^ 0 : ℚ) ≤ valueOf d q r places := mul_pow_le_valueOf (by omega)
    have hcast : (limit : ℚ) ≤ q := by exact_mod_cast hq
    rw [hval, pow_zero, mul_one] at hdigits
    linarith
  exact ⟨_, if_neg hpositive⟩

theorem room_le (q n : ℕ) : room q n ≤ n := by
  induction n with
  | zero => exact Nat.le_refl 0
  | succ n ih =>
    unfold room
    split_ifs
    · exact Nat.le_refl _
    · exact ih.trans (Nat.le_succ n)

theorem mul_pow_room_lt (hq : q < limit) (n : ℕ) : q * 10 ^ room q n < limit := by
  induction n with
  | zero => simpa [room] using hq
  | succ n ih =>
    unfold room
    split_ifs with hfits
    · exact hfits
    · exact ih

/-- One digit more than there is room for is too much. -/
theorem limit_le_of_room_lt (h : room q n < n) : limit ≤ q * 10 ^ (room q n + 1) := by
  induction n with
  | zero => exact absurd h (Nat.not_lt_zero _)
  | succ n ih =>
    unfold room at h ⊢
    split_ifs at h ⊢ with hfits
    · exact absurd h (lt_irrefl _)
    · rcases (room_le q n).lt_or_eq with hlt | heq
      · exact ih hlt
      · rw [heq]
        exact not_lt.mp hfits

/-- the number of digits in the next group -/
def group (q r : ℕ) (places : ℤ) : ℕ :=
  if r = 0 then Nat.min 9 (-places).toNat else room q (Nat.min 9 (28 - places).toNat)

theorem group_le_nine (q r : ℕ) (places : ℤ) : group q r places ≤ 9 := by
  unfold group
  split_ifs
  · exact Nat.min_le_left _ _
  · exact (room_le _ _).trans (Nat.min_le_left _ _)

theorem places_add_group_le (hle : places ≤ 28) : places + group q r places ≤ 28 := by
  have hmin : Nat.min 9 (-places).toNat ≤ (-places).toNat := Nat.min_le_right _ _
  have hmin' : Nat.min 9 (28 - places).toNat ≤ (28 - places).toNat := Nat.min_le_right _ _
  have hroom := room_le q (Nat.min 9 (28 - places).toNat)
  unfold group
  split_ifs <;> omega

/-- Where the next group is empty, there is no room for a digit or no further place. -/
theorem full_of_group_eq_zero (hopen : ¬ (r = 0 ∧ 0 ≤ places)) (h : group q r places = 0) :
    r ≠ 0 ∧ (28 ≤ places ∨ limit ≤ 10 * q) := by
  have hchoice : Nat.min 9 (28 - places).toNat = 9 ∨
      Nat.min 9 (28 - places).toNat = (28 - places).toNat := min_choice _ _
  have hchoice' : Nat.min 9 (-places).toNat = 9 ∨
      Nat.min 9 (-places).toNat = (-places).toNat := min_choice _ _
  unfold group at h
  split_ifs at h with hr
  · exact absurd ⟨hr, by omega⟩ hopen
  · refine ⟨hr, ?_⟩
    generalize Nat.min 9 (28 - places).toNat = n at *
    rcases Nat.eq_zero_or_pos n with hn | hn
    · exact .inl (by omega)
    · have hmore := @limit_le_of_room_lt q n (by omega)
      rw [h] at hmore
      exact .inr (by omega)

/-- What is true of the next group of digits while a quotient within the range is not finished: the
digits fit, and unless there are nine of them they reach up to the point. -/
structure IsGroup (q r : ℕ) (places : ℤ) (p : ℕ) : Prop where
  mul_lt : q * 10 ^ p < limit
  nonneg : r ≠ 0 → 0 ≤ places + p ∨ p = 9

/-- Digits that stand before the point are part of the value, so a quotient within the range has
room for all of them. -/
theorem isGroup_group (hq : q < limit) (hopen : ¬ (r = 0 ∧ 0 ≤ places))
    (hQ : valueOf d q r places < limit - 1 / 2) : IsGroup q r places (group q r places) := by
  have hbefore (k : ℕ) (hk : places + k ≤ 0) : q * 10 ^ k < limit := by
    have hle : (q * 10 ^ k : ℚ) ≤ valueOf d q r places := mul_pow_le_valueOf hk
    have hlt : ((q * 10 ^ k : ℕ) : ℚ) < limit := by
      push_cast
      linarith
    exact_mod_cast hlt
  unfold group
  split_ifs with hr
  · have hmin : Nat.min 9 (-places).toNat ≤ (-places).toNat := Nat.min_le_right _ _
    generalize Nat.min 9 (-places).toNat = n at *
    exact ⟨hbefore n (by omega), fun h => absurd hr h⟩
  · have hchoice : Nat.min 9 (28 - places).toNat = 9 ∨
        Nat.min 9 (28 - places).toNat = (28 - places).toNat := min_choice _ _
    generalize Nat.min 9 (28 - places).toNat = n at *
    have hroom := room_le q n
    refine ⟨mul_pow_room_lt hq n, fun _ => ?_⟩
    by_contra! hneg
    have hfits := hbefore (room q n + 1) (by push_cast; omega)
    exact hfits.not_ge (limit_le_of_room_lt (by omega))

/-- The ways in which the division of a value ends: nothing is left over, there is no room for
another digit, or the last group has a digit too many. -/
inductive Ends (d : ℕ) (Q : ℚ) : LongDivision → Prop
  | exact {q : ℕ} {places : ℤ} {inexact : Bool} (hq : q < limit) (hplaces : 0 ≤ places)
      (hle : places ≤ 28) (hval : valueOf d q 0 places = Q) : Ends d Q ⟨q, places, inexact⟩
  | round {q r : ℕ} {places : ℤ} {x : LongDivision} (hq : q < limit) (hr : r < d)
      (hplaces : 0 ≤ places) (hle : places ≤ 28)
      (hfull : 28 ≤ places ∨ limit ≤ 10 * q) (hval : valueOf d q r places = Q)
      (h : LongDivision.round q r d places = some x) : Ends d Q x
  | shorten {q r : ℕ} {places : ℤ} {x : LongDivision} (hq : limit ≤ q) (hlt : q < 2 * limit)
      (hr : r < d) (hle : places ≤ 28)
      (hval : valueOf d q r places = Q)
      (h : LongDivision.shorten q places (r != 0) = some x) : Ends d Q x

/-- A group of digits exceeds the range by a single digit at most. -/
theorem lt_two_mul_limit {p : ℕ} (hr : r < d) (hp : p ≤ 9) (hlt : q * 10 ^ p < limit) :
    q * 10 ^ p + r * 10 ^ p / d < 2 * limit := by
  have hpos : 0 < 10 ^ p := by positivity
  have hdigits : r * 10 ^ p / d < 10 ^ p := by
    rw [Nat.div_lt_iff_lt_mul ((Nat.zero_le r).trans_lt hr), Nat.mul_comm]
    exact Nat.mul_lt_mul_of_pos_left hr hpos
  have hpow : 10 ^ p ≤ 10 ^ 9 := Nat.pow_le_pow_right (by norm_num) hp
  have hlimit : 10 ^ 9 ≤ limit := by decide
  omega

/-- **Whatever long division finds, it ends in one of these ways.** -/
theorem ends_extend (hd : 0 < d) (hq : q < limit) (hr : r < d) (hle : places ≤ 28)
    (hval : valueOf d q r places = Q) (h : extend d fuel q r places inexact = some x) :
    Ends d Q x := by
  induction fuel generalizing q r places inexact with
  | zero => exact nomatch h
  | succ fuel ih =>
    unfold extend at h
    rw [← group] at h
    have hgroup := places_add_group_le (q := q) (r := r) hle
    have hempty := @full_of_group_eq_zero q r places
    have hnine := group_le_nine q r places
    generalize group q r places = p at *
    dsimp only at h
    split_ifs at h with hdone hpoint hp hover hlong
    · cases h
      obtain ⟨rfl, hplaces⟩ := hdone
      exact .exact hq hplaces hle hval
    · obtain ⟨hrest, hfull⟩ := hempty hdone hp
      have hplaces : 0 ≤ places := by
        by_contra hneg
        exact hpoint ⟨by omega, by omega, hrest⟩
      exact .round hq hr hplaces hle hfull hval h
    · have hval' := (valueOf_extend hd q r p places).trans hval
      have hlt := lt_two_mul_limit hr hnine (not_le.mp hover)
      exact .shorten hlong hlt (Nat.mod_lt _ hd) hgroup hval' h
    · have hval' := (valueOf_extend hd q r p places).trans hval
      exact ih (not_le.mp hlong) (Nat.mod_lt _ hd) hgroup hval' h

/-- **Long division finds every quotient within the range.** -/
theorem exists_extend (hd : 0 < d) (hq : q < limit) (hr : r < d) (hle : places ≤ 28)
    (hfuel : (28 - places).toNat < fuel) (hval : valueOf d q r places = Q)
    (hQ : Q < limit - 1 / 2) (inexact : Bool) : ∃ x, extend d fuel q r places inexact = some x := by
  induction fuel generalizing q r places inexact with
  | zero => exact absurd hfuel (Nat.not_lt_zero _)
  | succ fuel ih =>
    unfold extend
    by_cases hdone : r = 0 ∧ 0 ≤ places
    · rw [if_pos hdone]
      exact ⟨_, rfl⟩
    rw [if_neg hdone]
    have hgroup := isGroup_group hq hdone (hval ▸ hQ)
    have hplaces := places_add_group_le (q := q) (r := r) hle
    have hempty := @full_of_group_eq_zero q r places hdone
    rw [← group]
    generalize group q r places = p at *
    dsimp only
    have hpoint : ¬ (places + p < 0 ∧ p < 9 ∧ r ≠ 0) := fun h => by
      have := hgroup.nonneg h.2.2
      omega
    rw [if_neg hpoint]
    by_cases hp : p = 0
    · have hreached := hgroup.nonneg (hempty hp).1
      rw [if_pos hp]
      exact exists_round hr (by omega) hval hQ
    have hval' := (valueOf_extend hd q r p places).trans hval
    have hr' : r * 10 ^ p % d < d := Nat.mod_lt _ hd
    simp only [Nat.pow_eq]
    rw [if_neg hp, if_neg hgroup.mul_lt.not_ge]
    split_ifs with hlong
    · exact exists_shorten hlong hval' hQ _
    · exact ih (not_le.mp hlong) hr' hplaces (by omega) hval' _

/-- a finished quotient has a coefficient and places that are in range -/
structure InBounds (x : LongDivision) : Prop where
  q_lt : x.q < limit
  places_nonneg : 0 ≤ x.places
  places_le : x.places ≤ 28

theorem inBounds_of_checked {b : Bool} (hq : q < limit) (hle : places ≤ 28)
    (h : checked q places b = some x) : InBounds x := by
  unfold checked at h
  split_ifs at h with hneg
  cases h
  exact ⟨hq, not_lt.mp hneg, hle⟩

theorem Ends.inBounds (h : Ends d Q x) : InBounds x := by
  have hlimit : 10 ≤ limit := by decide
  cases h with
  | exact hq hplaces hle hval => exact ⟨hq, hplaces, hle⟩
  | @round q r places _ hq hr hplaces hle hfull hval h =>
    simp only [LongDivision.round] at h
    have hup : (if d < 2 * r ∨ (2 * r = d ∧ q % 2 = 1) then q + 1 else q) ≤ limit := by
      split_ifs <;> omega
    generalize (if d < 2 * r ∨ (2 * r = d ∧ q % 2 = 1) then q + 1 else q) = q' at h hup
    split_ifs at h with hcarry
    · exact inBounds_of_checked (by omega) (by omega) h
    · cases h
      exact ⟨lt_of_le_of_ne hup hcarry, hplaces, hle⟩
  | shorten hq hlt hr hle hval h =>
    refine inBounds_of_checked ?_ (by omega) h
    split_ifs <;> omega

/-! ### Spellings -/

/-- A quotient is spelled with fewer places. -/
structure Shortens (x y : LongDivision) : Prop where
  value_eq : y.value = x.value
  q_le : y.q ≤ x.q
  places_nonneg : 0 ≤ x.places → 0 ≤ y.places
  places_le : y.places ≤ x.places

theorem shortens_refl (x : LongDivision) : Shortens x x := ⟨rfl, le_rfl, id, le_rfl⟩

theorem Shortens.trans {y z : LongDivision} (h : Shortens x y) (h' : Shortens y z) :
    Shortens x z :=
  ⟨h'.value_eq.trans h.value_eq, h'.q_le.trans h.q_le, h'.places_nonneg ∘ h.places_nonneg,
    h'.places_le.trans h.places_le⟩

theorem shortens_dropZeros (n : ℕ) (x : LongDivision) : Shortens x (x.dropZeros n) := by
  unfold dropZeros
  split_ifs with hzeros
  · refine ⟨?_, Nat.div_le_self _ _, fun _ => by simp only; omega, by simp only; omega⟩
    have hdvd : x.q / 10 ^ n * 10 ^ n = x.q := Nat.div_mul_cancel (Nat.dvd_of_mod_eq_zero hzeros.2)
    have hcast : ((x.q / 10 ^ n : ℕ) : ℚ) * 10 ^ n = x.q := by exact_mod_cast hdvd
    have hpow := (zpow_ten_pos x.places).ne'
    rw [value, value, zpow_sub₀ (by norm_num), zpow_natCast, Nat.pow_eq, ← hcast]
    field_simp
  · exact shortens_refl x

theorem shortens_dropEights (n : ℕ) (x : LongDivision) : Shortens x (dropEights n x) := by
  induction n generalizing x with
  | zero => exact shortens_refl x
  | succ n ih =>
    unfold dropEights
    split_ifs
    · exact (shortens_dropZeros 8 x).trans (ih _)
    · exact shortens_refl x

theorem shortens_trim (x : LongDivision) : Shortens x x.trim := by
  unfold trim
  split_ifs
  · exact (shortens_dropEights 4 x).trans ((shortens_dropZeros 4 _).trans
      ((shortens_dropZeros 2 _).trans (shortens_dropZeros 1 _)))
  · exact shortens_refl x

end LongDivision

/-! ## Division -/

theorem abs_toRat (a : Decimal) : |a.toRat| = a.coefficient.natAbs / 10 ^ a.scale := by
  rw [toRat_eq_div, abs_div, abs_of_pos (ten_pow_pos _), ← Int.cast_abs, Int.abs_eq_natAbs]
  rfl

theorem toRat_eq_sign_mul_abs (a : Decimal) : a.toRat = a.coefficient.sign * |a.toRat| := by
  have hsign : ((a.coefficient.sign * a.coefficient.natAbs : ℤ) : ℚ) = a.coefficient := by
    rw [Int.sign_mul_natAbs]
  rw [abs_toRat, toRat_eq_div, ← hsign, ← mul_div_assoc, Int.cast_mul, Int.cast_natCast]

/-- The sign of a quotient is the product of the signs. -/
theorem div_eq_sign_mul_abs (a b : Decimal) (hb : b.coefficient ≠ 0) :
    a.toRat / b.toRat =
      (a.coefficient.sign * b.coefficient.sign : ℤ) * |a.toRat / b.toRat| := by
  have hinv : ((b.coefficient.sign : ℤ) : ℚ)⁻¹ = b.coefficient.sign := by
    rcases lt_or_gt_of_ne hb with hneg | hpos
    · rw [Int.sign_eq_neg_one_of_neg hneg]
      norm_num
    · rw [Int.sign_eq_one_of_pos hpos]
      norm_num
  calc a.toRat / b.toRat
      = a.coefficient.sign * |a.toRat| / (b.coefficient.sign * |b.toRat|) := by
        rw [← toRat_eq_sign_mul_abs, ← toRat_eq_sign_mul_abs]
    _ = (a.coefficient.sign * b.coefficient.sign : ℤ) * |a.toRat / b.toRat| := by
        rw [mul_div_mul_comm, div_eq_mul_inv (a.coefficient.sign : ℚ), hinv, abs_div]
        push_cast
        rfl

/-- The first digits of a quotient and what is left over make up its magnitude. -/
theorem valueOf_quotient (a b : Decimal) (hb : b.coefficient ≠ 0) :
    LongDivision.valueOf b.coefficient.natAbs (a.coefficient.natAbs / b.coefficient.natAbs)
      (a.coefficient.natAbs % b.coefficient.natAbs) (a.scale - b.scale) =
        |a.toRat / b.toRat| := by
  have hdiv : (a.coefficient.natAbs : ℚ) =
      b.coefficient.natAbs * (a.coefficient.natAbs / b.coefficient.natAbs : ℕ) +
        (a.coefficient.natAbs % b.coefficient.natAbs : ℕ) := by
    exact_mod_cast (Nat.div_add_mod _ _).symm
  have hb' : (b.coefficient.natAbs : ℚ) ≠ 0 := by exact_mod_cast Int.natAbs_ne_zero.mpr hb
  rw [abs_div, abs_toRat, abs_toRat, LongDivision.valueOf, zpow_sub₀ (by norm_num), zpow_natCast,
    zpow_natCast]
  field_simp
  linarith

/-- The spelling of a quotient does not change its value. -/
theorem toRat_trim {c : ℤ} {x : Decimal} {y : LongDivision} (hplaces : 0 ≤ y.places)
    (hcoef : x.coefficient = c * y.trim.q) (hscale : x.scale = y.trim.places.toNat) :
    x.toRat = c * y.value := by
  have htrim := LongDivision.shortens_trim y
  have hpow : (10 : ℚ) ^ y.trim.places = 10 ^ y.trim.places.toNat := by
    rw [← zpow_natCast, Int.toNat_of_nonneg (htrim.places_nonneg hplaces)]
  rw [toRat_eq_div, ← htrim.value_eq, LongDivision.value, hpow, hcoef, hscale, Int.cast_mul,
    Int.cast_natCast, mul_div_assoc]

theorem natAbs_sign_mul_sign {m n : ℤ} (hm : m ≠ 0) (hn : n ≠ 0) :
    (m.sign * n.sign).natAbs = 1 := by
  rw [Int.natAbs_mul, Int.natAbs_sign_of_ne_zero hm, Int.natAbs_sign_of_ne_zero hn]

/-- What long division begins with, for two decimals, and where it ends. -/
theorem ends_of_extend {a b : Decimal} {x : LongDivision} {fuel : ℕ} (hb : b.coefficient ≠ 0)
    (h : LongDivision.extend b.coefficient.natAbs fuel
      (a.coefficient.natAbs / b.coefficient.natAbs) (a.coefficient.natAbs % b.coefficient.natAbs)
      (a.scale - b.scale) false = some x) :
    LongDivision.Ends b.coefficient.natAbs |a.toRat / b.toRat| x := by
  have hd : 0 < b.coefficient.natAbs := Int.natAbs_pos.mpr hb
  have hplaces : (a.scale : ℤ) - b.scale ≤ 28 := by
    have := a.scale_le
    omega
  exact LongDivision.ends_extend hd ((Nat.div_le_self _ _).trans_lt a.coefficient_lt)
    (Nat.mod_lt _ hd) hplaces (valueOf_quotient a b hb) h

/-- **A quotient within the range has a result.** -/
theorem exists_div {a b : Decimal} (hb : b.toRat ≠ 0) (hlt : InRange (a.toRat / b.toRat)) :
    ∃ d, a.div b = some d := by
  have hb' : b.coefficient ≠ 0 := mt toRat_eq_zero_iff.mpr hb
  unfold div
  rw [if_neg hb']
  by_cases ha : a.coefficient = 0
  · exact ⟨zero, if_pos ha⟩
  have hd : 0 < b.coefficient.natAbs := Int.natAbs_pos.mpr hb'
  have hplaces : (a.scale : ℤ) - b.scale ≤ 28 := by
    have := a.scale_le
    omega
  have hfuel : (28 - ((a.scale : ℤ) - b.scale)).toNat < 64 := by
    have := b.scale_le
    omega
  obtain ⟨x, hx⟩ := LongDivision.exists_extend hd
    ((Nat.div_le_self _ _).trans_lt a.coefficient_lt) (Nat.mod_lt _ hd) hplaces hfuel
    (valueOf_quotient a b hb') hlt false
  have hbounds := (ends_of_extend hb' hx).inBounds
  have htrim := LongDivision.shortens_trim x
  have hcoef : (a.coefficient.sign * b.coefficient.sign * x.trim.q).natAbs < limit := by
    rw [Int.natAbs_mul, natAbs_sign_mul_sign ha hb', Nat.one_mul, Int.natAbs_natCast]
    exact htrim.q_le.trans_lt hbounds.q_lt
  have hscale : x.trim.places.toNat ≤ maxScale :=
    Int.toNat_le.mpr (htrim.places_le.trans hbounds.places_le)
  simp only [if_neg ha, hx, ofParts?_eq_some hcoef hscale]
  exact ⟨_, rfl⟩

end MarketFeed.Decimal
