import Mathlib.Data.List.TakeWhile
import MarketFeed.Decimal.Overflow
import MarketFeed.Instant.Printer
import MarketFeed.Instant.Reader
import MarketFeed.Proofs.Instant.Calendar
import MarketFeed.Proofs.Text.Digits

/-!
# Instants and their texts

The text of an instant is read as that instant, provided it is one that a text can write: within
the range of years, and inside a leap second only at the end of a minute. Every instant that is read
is such an instant, since zones are whole minutes from universal time.

## Main definitions

* `Instant.Proper`: a text can write the instant

## Main results

* `Instant.proper_of_ofText`: an instant that is read is proper
* `Instant.ofText_text`: a proper instant is read from its text
-/

namespace MarketFeed.Instant

open Text

variable {n low high width : ℕ} {cs ds rest : List Char}

/-- An instant that a text can write: in range, its nanoseconds beyond a second only in the last
second of a minute. -/
structure Proper (t : Instant) : Prop where
  inRange : t.InRange
  nanos_lt : t.nanos < 2 * nanosPerSecond
  minute_end : t.InLeapSecond → t.seconds % 60 = 59

/-! ## What is read is proper -/

/-- A number is read off the digits in front. -/
theorem readNumber_spec (h : readNumber width cs = .ok (n, rest)) :
    ∃ ds, cs = ds ++ rest ∧ ds.length ≤ width ∧ (∀ c ∈ ds, isDigit c) ∧ n = ofDigits ds := by
  unfold readNumber at h
  split at h
  next => exact nomatch h
  next =>
    have hfront : (cs.take width).takeWhile isDigit <+: cs.take width := List.takeWhile_prefix _
    have hdigits : ∀ c ∈ (cs.take width).takeWhile isDigit, isDigit c :=
      fun c hc => List.mem_takeWhile_imp hc
    generalize (cs.take width).takeWhile isDigit = ds at h hfront hdigits
    simp only at h
    split at h
    next => exact nomatch h
    next =>
      split at h
      next => exact nomatch h
      next =>
        obtain ⟨rfl, rfl⟩ := Prod.mk.inj (Except.ok.inj h)
        exact ⟨ds, List.prefix_append_drop (hfront.trans (List.take_prefix _ _)),
          hfront.length_le.trans (List.length_take_le _ _), hdigits, rfl⟩

theorem readField_le (h : readField low high cs = .ok (n, rest)) : n ≤ high := by
  obtain ⟨⟨m, cs'⟩, -, hbounds⟩ := bind_eq_ok_iff.mp h
  simp only at hbounds
  split at hbounds
  next hle =>
    obtain ⟨rfl, -⟩ := Prod.mk.inj (Except.ok.inj hbounds)
    exact hle.2
  next => exact nomatch hbounds

/-- A fraction is less than a second. -/
theorem readFraction_lt (h : readFraction cs = .ok (n, rest)) : n < nanosPerSecond := by
  unfold readFraction at h
  split at h
  next cs =>
    obtain ⟨⟨m, rest'⟩, hread, hresult⟩ := bind_eq_ok_iff.mp h
    obtain ⟨ds, rfl, hwidth, hdigits, rfl⟩ := readNumber_spec hread
    obtain ⟨rfl, -⟩ := Prod.mk.inj (Except.ok.inj hresult)
    have hlength : (ds ++ rest').length - rest'.length = ds.length := by
      rw [List.length_append, Nat.add_sub_cancel]
    rw [hlength]
    calc ofDigits ds * 10 ^ (9 - ds.length)
        < 10 ^ ds.length * 10 ^ (9 - ds.length) :=
          Nat.mul_lt_mul_of_pos_right (ofDigits_lt hdigits) (Nat.pow_pos (by decide))
      _ = 10 ^ 9 := by rw [← pow_add, Nat.add_sub_cancel' hwidth]
  next =>
    obtain ⟨rfl, -⟩ := Prod.mk.inj (Except.ok.inj h)
    decide

/-- A zone is whole minutes from universal time. -/
theorem readZone_whole_minutes {offset : ℤ} (h : readZone cs = .ok (offset, rest)) :
    offset % 60 = 0 := by
  unfold readZone at h
  split at h
  next => exact nomatch h
  next =>
    split at h
    next =>
      obtain ⟨rfl, -⟩ := Prod.mk.inj (Except.ok.inj h)
      rfl
    next =>
      split at h
      next =>
        obtain ⟨rfl, -⟩ := Prod.mk.inj (Except.ok.inj h)
        rfl
      next =>
        split at h
        next =>
          obtain ⟨⟨hours, cs'⟩, -, hminutes⟩ := bind_eq_ok_iff.mp h
          obtain ⟨⟨minutes, cs''⟩, -, hresult⟩ := bind_eq_ok_iff.mp hminutes
          obtain ⟨rfl, -⟩ := Prod.mk.inj (Except.ok.inj hresult)
          split <;> omega
        next => exact nomatch h

theorem readFields_spec {f : Fields} (h : readFields cs = .ok f) :
    f.second ≤ 60 ∧ f.nanos < nanosPerSecond ∧ f.offset % 60 = 0 := by
  obtain ⟨⟨year, cs⟩, -, h⟩ := bind_eq_ok_iff.mp h
  obtain ⟨⟨_, cs⟩, -, h⟩ := bind_eq_ok_iff.mp h
  obtain ⟨⟨month, cs⟩, -, h⟩ := bind_eq_ok_iff.mp h
  obtain ⟨⟨_, cs⟩, -, h⟩ := bind_eq_ok_iff.mp h
  obtain ⟨⟨day, cs⟩, -, h⟩ := bind_eq_ok_iff.mp h
  obtain ⟨⟨_, cs⟩, -, h⟩ := bind_eq_ok_iff.mp h
  obtain ⟨⟨hour, cs⟩, -, h⟩ := bind_eq_ok_iff.mp h
  obtain ⟨⟨_, cs⟩, -, h⟩ := bind_eq_ok_iff.mp h
  obtain ⟨⟨minute, cs⟩, -, h⟩ := bind_eq_ok_iff.mp h
  obtain ⟨⟨_, cs⟩, -, h⟩ := bind_eq_ok_iff.mp h
  obtain ⟨⟨second, cs⟩, hsecond, h⟩ := bind_eq_ok_iff.mp h
  obtain ⟨⟨nanos, cs⟩, hnanos, h⟩ := bind_eq_ok_iff.mp h
  obtain ⟨⟨offset, cs⟩, hoffset, h⟩ := bind_eq_ok_iff.mp h
  simp only at h
  split at h
  next =>
    obtain rfl := Except.ok.inj h
    exact ⟨readField_le hsecond, readFraction_lt hnanos, readZone_whole_minutes hoffset⟩
  next => exact nomatch h

/-- **An instant that is read is proper.** -/
theorem proper_of_ofText {s : String} {t : Instant} (h : ofText s = .ok t) : t.Proper := by
  obtain ⟨f, hf, ht⟩ := bind_eq_ok_iff.mp h
  obtain ⟨hsecond, hnanos, hoffset⟩ := readFields_spec hf
  unfold ofFields at ht
  split at ht
  next => exact nomatch ht
  next =>
    split at ht
    next => exact nomatch ht
    next =>
      simp only at ht
      split at ht
      next hrange =>
        obtain rfl := Except.ok.inj ht
        have hmin : Nat.min f.second 59 = min f.second 59 := rfl
        refine ⟨hrange, ?_, fun hleap => ?_⟩
        · simp only [nanosPerSecond, hmin] at hnanos ⊢
          omega
        · simp only [InLeapSecond, nanosPerSecond, secondsPerDay, hmin] at hleap hnanos ⊢
          omega
      next => exact nomatch ht

/-! ## What is written is read -/

theorem trimStart_cons {c : Char} (h : isBlank c = false) (cs : List Char) :
    trimStart (c :: cs) = c :: cs := by
  rw [trimStart, List.dropWhile_cons, h]
  rfl

theorem isBlank_of_isDigit {c : Char} (h : isDigit c) : isBlank c = false := by
  have hdigits : ∀ n < 58, 48 ≤ n → inRuns blanks n = false := by decide
  obtain ⟨hlow, hhigh⟩ := isDigit_iff.mp h
  exact hdigits c.toNat (Nat.lt_succ_of_le hhigh) hlow

/-- There is no white space before digits. -/
theorem trimStart_digits (hds : ∀ c ∈ ds, isDigit c) (hne : ds ≠ []) (rest : List Char) :
    trimStart (ds ++ rest) = ds ++ rest := by
  obtain ⟨c, ds, rfl⟩ := List.exists_cons_of_ne_nil hne
  exact trimStart_cons (isBlank_of_isDigit (hds c List.mem_cons_self)) _

theorem readMark_trimStart {mark : Char} (h : isBlank mark = false) (cs : List Char) :
    readMark mark (trimStart (mark :: cs)) = .ok ((), cs) := by
  rw [trimStart_cons h, readMark, if_pos rfl]

/-- Digits are read as a number up to the width or up to their end. -/
theorem readNumber_append (hds : ∀ c ∈ ds, isDigit c) (hne : ds ≠ []) (hwidth : ds.length ≤ width)
    (hend : NoDigit (rest.take (width - ds.length))) (hsmall : ofDigits ds < 2 ^ 63) :
    readNumber width (ds ++ rest) = .ok (ofDigits ds, rest) := by
  have hfront : ((ds ++ rest).take width).takeWhile isDigit = ds := by
    rw [List.take_append, List.take_of_length_le hwidth, takeWhile_isDigit_append hds hend]
  have hfits : ¬ Nat.pow 2 63 ≤ ofDigits ds := Nat.not_le_of_lt hsmall
  have hnonempty : ds ++ rest ≠ [] := List.append_ne_nil_of_left_ne_nil hne rest
  unfold readNumber
  rw [hfront]
  split
  next hnil => exact absurd hnil hnonempty
  next =>
    rw [if_neg hne, if_neg hfits, List.drop_left]

/-- A number of two digits is read where its bounds allow it. -/
theorem readField_padded (hlow : low ≤ n) (hhigh : n ≤ high) (htwo : n < 100)
    (rest : List Char) : readField low high (padded 2 n ++ rest) = .ok (n, rest) := by
  have hlength : (padded 2 n).length = 2 := length_padded (by decide) htwo
  have hvalue := ofDigits_padded 2 n
  have hread : readNumber 2 (padded 2 n ++ rest) = .ok (n, rest) := by
    rw [readNumber_append (isDigit_padded 2 n) (padded_ne_nil 2 n) hlength.le, hvalue]
    · rw [hlength]
      exact .nil
    · omega
  unfold readField
  rw [trimStart_digits (isDigit_padded 2 n) (padded_ne_nil 2 n), hread]
  exact if_pos ⟨hlow, hhigh⟩

/-- A year of four digits is read without a sign. -/
theorem readYear_padded (hn : n ≤ 9999) (cs : List Char) :
    readYear (padded 4 n ++ '-' :: cs) = .ok ((n : ℤ), '-' :: cs) := by
  have hend : NoDigit ('-' :: cs) := .cons rfl cs
  have hvalue := ofDigits_padded 4 n
  have hlength : (padded 4 n).length = 4 := length_padded (by decide) (by omega)
  have hread : readNumber 4 (padded 4 n ++ '-' :: cs) = .ok (n, '-' :: cs) := by
    rw [readNumber_append (isDigit_padded 4 n) (padded_ne_nil 4 n) hlength.le (hend.take _), hvalue]
    rw [hvalue]
    omega
  obtain ⟨c, ds, hds⟩ := List.exists_cons_of_ne_nil (padded_ne_nil 4 n)
  have hc : isDigit c := isDigit_padded 4 n c (hds ▸ List.mem_cons_self)
  unfold readYear
  rw [trimStart_digits (isDigit_padded 4 n) (padded_ne_nil 4 n)]
  split
  next hsign => exact absurd (List.cons.inj (hds ▸ hsign)).1 (ne_of_isDigit hc rfl)
  next hsign => exact absurd (List.cons.inj (hds ▸ hsign)).1 (ne_of_isDigit hc rfl)
  next =>
    rw [hread]
    rfl

/-- Behind a sign a year has any number of digits. -/
theorem readNumber_signed (hn : n < 2 ^ 63) (cs : List Char) :
    readNumber (padded 4 n ++ '-' :: cs).length (padded 4 n ++ '-' :: cs) =
      .ok (n, '-' :: cs) := by
  have hend : NoDigit ('-' :: cs) := .cons rfl cs
  have hvalue := ofDigits_padded 4 n
  have hwidth : (padded 4 n).length ≤ (padded 4 n ++ '-' :: cs).length := by
    rw [List.length_append]
    exact Nat.le_add_right _ _
  rw [readNumber_append (isDigit_padded 4 n) (padded_ne_nil 4 n) hwidth (hend.take _), hvalue]
  rwa [hvalue]

theorem checkYear_of_inRange {y : ℤ} (hfirst : firstYear ≤ y) (hlast : y ≤ lastYear)
    (cs : List Char) : checkYear y cs = .ok (y, cs) := by
  unfold firstYear at hfirst
  unfold lastYear at hlast
  refine if_pos ⟨?_, ?_⟩
  · show -2147483648 ≤ y
    omega
  · show y < 2147483648
    omega

/-- A year is read up to the mark behind it. -/
theorem readYear_yearChars {y : ℤ} (hfirst : firstYear ≤ y) (hlast : y ≤ lastYear)
    (cs : List Char) : readYear (yearChars y ++ '-' :: cs) = .ok (y, '-' :: cs) := by
  have hcheck := checkYear_of_inRange hfirst hlast ('-' :: cs)
  unfold firstYear at hfirst
  unfold lastYear at hlast
  have hread := readNumber_signed (show y.natAbs < 2 ^ 63 by omega) cs
  unfold yearChars
  by_cases hplain : 0 ≤ y ∧ y ≤ 9999
  · rw [if_pos hplain, readYear_padded (by omega), Int.toNat_of_nonneg hplain.1]
  · rw [if_neg hplain]
    by_cases hneg : y < 0
    · have hy : -(y.natAbs : ℤ) = y := by omega
      rw [if_pos hneg, List.cons_append, readYear, trimStart_cons rfl]
      simp only [hread, bind, Except.bind, hy, hcheck]
    · have hy : (y.natAbs : ℤ) = y := by omega
      rw [if_neg hneg, List.cons_append, readYear, trimStart_cons rfl]
      simp only [hread, bind, Except.bind, hy, hcheck]

/-- A fraction is read from as many digits as it is written with. -/
theorem readFraction_point {k : ℕ} (hpos : 0 < k) (hk : k ≤ 9) (hn : n < 10 ^ k)
    (hend : NoDigit rest) :
    readFraction ('.' :: (padded k n ++ rest)) = .ok (n * 10 ^ (9 - k), rest) := by
  have hlength : (padded k n).length = k := length_padded hpos hn
  have hsmall : n < 2 ^ 63 := by
    have hbound : 10 ^ k ≤ 10 ^ 9 := Nat.pow_le_pow_right (by decide) hk
    omega
  have hread : readNumber 9 (padded k n ++ rest) = .ok (n, rest) := by
    rw [readNumber_append (isDigit_padded k n) (padded_ne_nil k n) (hlength.trans_le hk)
      (hend.take _), ofDigits_padded]
    rwa [ofDigits_padded]
  have hplaces : (padded k n ++ rest).length - rest.length = k := by
    rw [List.length_append, Nat.add_sub_cancel, hlength]
  have hstop : rest.dropWhile isDigit = rest := by
    cases rest with
    | nil => rfl
    | cons c rest =>
      have hc : isDigit c = false := hend c rfl
      rw [List.dropWhile_cons, hc]
      rfl
  simp only [readFraction, hread, bind, Except.bind, hplaces, hstop]
  rfl

theorem readFraction_fractionChars (hn : n < nanosPerSecond) :
    readFraction (fractionChars n ++ ['Z']) = .ok (n, ['Z']) := by
  have hend : NoDigit ['Z'] := .cons rfl []
  unfold nanosPerSecond at hn
  unfold fractionChars
  split
  case isTrue hzero =>
    subst hzero
    rfl
  case isFalse =>
    split
    case isTrue hmillis =>
      rw [List.cons_append, readFraction_point (by decide) (by decide) (by omega) hend]
      have hsame : n / 1000000 * 10 ^ (9 - 3) = n := by omega
      rw [hsame]
    case isFalse =>
      split
      case isTrue hmicros =>
        rw [List.cons_append, readFraction_point (by decide) (by decide) (by omega) hend]
        have hsame : n / 1000 * 10 ^ (9 - 6) = n := by omega
        rw [hsame]
      case isFalse =>
        rw [List.cons_append, readFraction_point (by decide) (by decide) (by omega) hend]
        have hsame : n * 10 ^ (9 - 9) = n := by omega
        rw [hsame]

/-- the fields that the text of an instant shows -/
def fields (t : Instant) : Fields :=
  let s := t.secondOfDay.toNat
  ⟨t.date, s / 3600, s / 60 % 60, s % 60 + t.nanos / nanosPerSecond, t.nanos % nanosPerSecond, 0⟩

theorem secondOfDay_lt (t : Instant) : t.secondOfDay.toNat < 86400 := by
  simp only [secondOfDay, secondsPerDay]
  omega

/-- The date of an instant in range has a year that is in range. -/
theorem InRange.year {t : Instant} (h : t.InRange) :
    firstYear ≤ t.date.year ∧ t.date.year ≤ lastYear := by
  obtain ⟨hfirst, hend⟩ := h
  have hyear : t.date.year = yearOfDay (t.seconds / secondsPerDay + Date.epoch) := rfl
  have hstart := yearStart_yearOfDay_le (t.seconds / secondsPerDay + Date.epoch)
  have hstop := lt_yearStart_yearOfDay (t.seconds / secondsPerDay + Date.epoch)
  simp only [firstSecond, endSecond, secondsPerDay] at hfirst hend hstart hstop hyear
  rw [hyear]
  constructor
  · by_contra hbefore
    have hmono := yearStart_mono (Int.lt_iff_add_one_le.mp (Int.not_le.mp hbefore))
    omega
  · by_contra hafter
    have hmono := yearStart_mono (Int.lt_iff_add_one_le.mp (Int.not_le.mp hafter))
    omega

theorem readFields_chars {t : Instant} (h : t.Proper) : readFields t.chars = .ok t.fields := by
  obtain ⟨hfirst, hlast⟩ := h.inRange.year
  have hvalid : t.date.Valid := Date.valid_ofDayNumber _
  have hday := hvalid.day_le
  obtain ⟨hmonth, hmonth', hday', -⟩ := hvalid
  have hsecond := t.secondOfDay_lt
  have hnanos := h.nanos_lt
  have hfraction : t.nanos % nanosPerSecond < nanosPerSecond := Nat.mod_lt _ (by decide)
  have hleap : t.secondOfDay.toNat % 60 + t.nanos / nanosPerSecond ≤ 60 := by
    simp only [nanosPerSecond] at hnanos ⊢
    omega
  have hmiddle : ∀ cs, readMiddle ('T' :: cs) = .ok ((), cs) := fun _ => rfl
  have hzone : readZone (trimStart ['Z']) = .ok (0, []) := rfl
  unfold chars
  simp only [List.append_assoc, List.cons_append]
  refine bind_eq_ok (readYear_yearChars hfirst hlast _) ?_
  refine bind_eq_ok (readMark_trimStart rfl _) ?_
  refine bind_eq_ok (readField_padded hmonth hmonth' (by omega) _) ?_
  refine bind_eq_ok (readMark_trimStart rfl _) ?_
  refine bind_eq_ok (readField_padded hday' hday (by omega) _) ?_
  refine bind_eq_ok (hmiddle _) ?_
  refine bind_eq_ok (readField_padded (Nat.zero_le _) (by omega) (by omega) _) ?_
  refine bind_eq_ok (readMark_trimStart rfl _) ?_
  refine bind_eq_ok (readField_padded (Nat.zero_le _) (by omega) (by omega) _) ?_
  refine bind_eq_ok (readMark_trimStart rfl _) ?_
  refine bind_eq_ok (readField_padded (Nat.zero_le _) hleap (by omega) _) ?_
  refine bind_eq_ok (readFraction_fractionChars hfraction) ?_
  exact bind_eq_ok hzone rfl

/-- The fields that the text of an instant shows stand for that instant. -/
theorem ofFields_fields {t : Instant} (h : t.Proper) : ofFields t.fields = .ok t := by
  obtain ⟨hfirst, hlast⟩ := h.inRange.year
  have hvalid : t.date.Valid := Date.valid_ofDayNumber _
  have hnumber : t.date.dayNumber = t.seconds / secondsPerDay + Date.epoch :=
    Date.dayNumber_ofDayNumber _
  have hdate : ¬ (¬ t.date.Valid ∨ t.date.year < firstYear ∨ lastYear < t.date.year) := by
    rintro (hnot | hbefore | hafter)
    · exact hnot hvalid
    · exact absurd hfirst (Int.not_le.mpr hbefore)
    · exact absurd hlast (Int.not_le.mpr hafter)
  have hnanos := h.nanos_lt
  have hminute := h.minute_end
  have hmin : ∀ n, Nat.min n 59 = min n 59 := fun _ => rfl
  have hsame : (⟨(t.date.dayNumber - Date.epoch) * secondsPerDay +
      (t.fields.hour * 3600 + t.fields.minute * 60 + Nat.min t.fields.second 59 : ℕ) - 0,
      t.fields.nanos + (t.fields.second - Nat.min t.fields.second 59) * nanosPerSecond⟩ : Instant) =
        t := by
    rw [Instant.mk.injEq, hnumber]
    simp only [fields, InLeapSecond, nanosPerSecond, secondsPerDay, secondOfDay, hmin] at *
    constructor
    · omega
    · omega
  unfold ofFields
  rw [show t.fields.date = t.date from rfl, show t.fields.offset = 0 from rfl, if_neg hdate,
    if_neg (by decide)]
  simp only
  rw [hsame]
  exact if_pos h.inRange

/-- **A proper instant is read from its text.** -/
theorem ofText_text {t : Instant} (h : t.Proper) : ofText t.text = .ok t := by
  have hchars : t.text.toList = t.chars := String.toList_ofList
  rw [ofText, hchars]
  exact bind_eq_ok (readFields_chars h) (ofFields_fields h)

end MarketFeed.Instant
