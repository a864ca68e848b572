import Mathlib.Algebra.BigOperators.Group.List.Basic
import Mathlib.Algebra.GroupWithZero.Nat
import MarketFeed.Instant.Calendar

/-!
# Days and dates

Every day number is that of the date it is turned into: the year of a day is the one whose first
day is at most as late while the first day of the next year is later, and the month is found by
taking the lengths of the months off the day of the year.

## Main results

* `yearStart_succ`: how long a year is
* `yearStart_yearOfDay_le`, `lt_yearStart_yearOfDay`: a day lies in its year
* `Date.valid_ofDayNumber`: the date of a day exists
* `Date.dayNumber_ofDayNumber`: a day is found again from its date
-/

namespace MarketFeed

/-! ## Years -/

/-- the number of days of a year -/
def yearLength (y : ℤ) : ℕ := if isLeapYear y then 366 else 365

theorem isLeapYear_iff (y : ℤ) : isLeapYear y ↔ y % 4 = 0 ∧ (y % 100 ≠ 0 ∨ y % 400 = 0) := by
  simp [isLeapYear]

/-- A year is followed by the next. -/
theorem yearStart_succ (y : ℤ) : yearStart (y + 1) = yearStart y + yearLength y := by
  unfold yearStart yearLength
  by_cases hleap : isLeapYear y
  · rw [if_pos hleap]
    rw [isLeapYear_iff] at hleap
    omega
  · rw [if_neg hleap]
    rw [isLeapYear_iff] at hleap
    omega

theorem yearStart_mono {y y' : ℤ} (h : y ≤ y') : yearStart y ≤ yearStart y' := by
  unfold yearStart
  omega

/-- The first day of a year is never more than two days off the mean of 146097 days in 400
years. -/
theorem yearStart_near_mean (y : ℤ) :
    146097 * (y - 1) - 800 < 400 * yearStart y ∧
      400 * yearStart y < 146097 * (y - 1) + 800 := by
  unfold yearStart
  constructor <;> omega

/-- The estimate of the year of a day is off by one at most. -/
theorem yearOfDay_estimate (n : ℤ) :
    yearStart (n * 400 / 146097 + 1 - 1) ≤ n ∧ n < yearStart (n * 400 / 146097 + 1 + 2) := by
  have hbefore := yearStart_near_mean (n * 400 / 146097 + 1 - 1)
  have hafter := yearStart_near_mean (n * 400 / 146097 + 1 + 2)
  constructor <;> omega

theorem yearStart_yearOfDay_le (n : ℤ) : yearStart (yearOfDay n) ≤ n := by
  obtain ⟨hbefore, -⟩ := yearOfDay_estimate n
  unfold yearOfDay
  simp only
  split
  · exact hbefore
  · split
    · assumption
    · omega

theorem lt_yearStart_yearOfDay (n : ℤ) : n < yearStart (yearOfDay n + 1) := by
  obtain ⟨-, hafter⟩ := yearOfDay_estimate n
  unfold yearOfDay
  simp only
  split
  · rwa [Int.sub_add_cancel]
  · split
    · rwa [Int.add_assoc]
    · omega

/-! ## Months -/

namespace Date

theorem sum_monthLengths (y : ℤ) : (monthLengths (isLeapYear y)).sum = yearLength y := by
  unfold yearLength
  cases isLeapYear y <;> rfl

theorem getD_monthLengths_le (leap : Bool) (i : ℕ) : (monthLengths leap).getD i 0 ≤ 31 := by
  have hall : ∀ l ∈ monthLengths leap, l ≤ 31 := by cases leap <;> decide
  rw [List.getD_eq_getElem?_getD]
  cases hget : (monthLengths leap)[i]? with
  | none => exact Nat.zero_le 31
  | some l => exact hall l (List.mem_of_getElem? hget)

/-- A day before the end of some months lies in one of them, behind those before it. -/
theorem monthAndDay_spec (m : ℕ) {n : ℕ} (ls : List ℕ) (h : n < ls.sum) :
    ∃ i d, monthAndDay m n ls = (m + i, d + 1) ∧ i < ls.length ∧ d < ls.getD i 0 ∧
      (ls.take i).sum + d = n := by
  induction ls generalizing m n with
  | nil => exact absurd h (Nat.not_lt_zero n)
  | cons l ls ih =>
    rw [monthAndDay]
    split
    case isTrue hlt => exact ⟨0, n, rfl, Nat.succ_pos _, hlt, Nat.zero_add n⟩
    case isFalse hge =>
      rw [List.sum_cons] at h
      obtain ⟨i, d, heq, hi, hd, hsum⟩ := ih (m + 1) (show n - l < ls.sum by omega)
      refine ⟨i + 1, d, ?_, Nat.succ_lt_succ hi, hd, ?_⟩
      · rw [heq, Nat.add_right_comm, Nat.add_assoc]
      · rw [List.take_succ_cons, List.sum_cons]
        omega

/-- The date of a day: the year it lies in, and a month and a day that exist. -/
theorem ofDayNumber_spec (n : ℤ) :
    ∃ i d, ofDayNumber n = ⟨yearOfDay n, i + 1, d + 1⟩ ∧ i < 12 ∧
      d < (monthLengths (isLeapYear (yearOfDay n))).getD i 0 ∧
      yearStart (yearOfDay n) +
        (((monthLengths (isLeapYear (yearOfDay n))).take i).sum + d : ℕ) = n := by
  have hstart := yearStart_yearOfDay_le n
  have hend := lt_yearStart_yearOfDay n
  rw [yearStart_succ, ← sum_monthLengths] at hend
  obtain ⟨i, d, heq, hi, hd, hsum⟩ := monthAndDay_spec 1
    (monthLengths (isLeapYear (yearOfDay n)))
    (show (n - yearStart (yearOfDay n)).toNat < _ by omega)
  refine ⟨i, d, ?_, hi, hd, ?_⟩
  · rw [ofDayNumber, heq, Nat.add_comm 1 i]
  · rw [hsum]
    omega

/-- **The date of a day exists.** -/
theorem valid_ofDayNumber (n : ℤ) : (ofDayNumber n).Valid := by
  obtain ⟨i, d, heq, hi, hd, -⟩ := ofDayNumber_spec n
  rw [heq]
  exact ⟨Nat.succ_pos i, hi, Nat.succ_pos d, hd⟩

theorem Valid.day_le {d : Date} (h : d.Valid) : d.day ≤ 31 :=
  Nat.le_trans h.2.2.2 (getD_monthLengths_le _ _)

/-- **A day is found again from its date.** -/
theorem dayNumber_ofDayNumber (n : ℤ) : (ofDayNumber n).dayNumber = n := by
  obtain ⟨i, d, heq, -, -, hsum⟩ := ofDayNumber_spec n
  rw [heq, dayNumber]
  simp only [Nat.add_sub_cancel, ← List.sum_eq_foldl]
  omega

end Date

end MarketFeed
