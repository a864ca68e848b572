import MarketFeed.Instant.Basic

/-!
# The Gregorian calendar

Days are counted from the first of January of year 1; the calendar runs on backwards into year 0
and negative years.

## Main definitions

* `Date`: year, month and day
* `Date.dayNumber`, `Date.ofDayNumber`: dates and day numbers
* `Date.Valid`: the day exists
-/

namespace MarketFeed

/-- A year has a 29th of February. -/
def isLeapYear (y : Int) : Bool := y % 4 == 0 && (y % 100 != 0 || y % 400 == 0)

/-- the number of the first day of a year -/
def yearStart (y : Int) : Int := 365 * (y - 1) + (y - 1) / 4 - (y - 1) / 100 + (y - 1) / 400

/-- The year a day lies in: an estimate from the mean length of a year, put right by one. -/
def yearOfDay (n : Int) : Int :=
  let y := n * 400 / 146097 + 1
  if n < yearStart y then y - 1 else if yearStart (y + 1) ≤ n then y + 1 else y

/-- the lengths of the months of a year -/
def monthLengths (leap : Bool) : List Nat :=
  [31, if leap then 29 else 28, 31, 30, 31, 30, 31, 31, 30, 31, 30, 31]

/-- A calendar date. -/
structure Date where
  year : Int
  month : Nat
  day : Nat
  deriving DecidableEq, Repr

namespace Date

/-- The day exists in the calendar. -/
def Valid (d : Date) : Prop :=
  1 ≤ d.month ∧ d.month ≤ 12 ∧ 1 ≤ d.day ∧
    d.day ≤ (monthLengths (isLeapYear d.year)).getD (d.month - 1) 0

instance (d : Date) : Decidable d.Valid := inferInstanceAs (Decidable (_ ∧ _ ∧ _ ∧ _))

/-- the number of days before a date -/
def dayNumber (d : Date) : Int :=
  let months : Nat := ((monthLengths (isLeapYear d.year)).take (d.month - 1)).foldl (· + ·) 0
  yearStart d.year + months + (d.day - 1)

/-- Finds the month and the day in it that `n` days after the start of the months `ls` lie,
the first of which has the number `m`. -/
def monthAndDay : (m n : Nat) → (ls : List Nat) → Nat × Nat
  | m, n, [] => (m, n + 1)
  | m, n, l :: ls => if n < l then (m, n + 1) else monthAndDay (m + 1) (n - l) ls

/-- the date with so many days before it -/
def ofDayNumber (n : Int) : Date :=
  let y := yearOfDay n
  let (m, d) := monthAndDay 1 (n - yearStart y).toNat (monthLengths (isLeapYear y))
  ⟨y, m, d⟩

/-- the number of days before the first of January 1970 -/
def epoch : Int := yearStart 1970

end Date

namespace Instant

/-- the first and last year of representable dates -/
def firstYear : Int := -262143

/-- the last year of representable dates -/
def lastYear : Int := 262142

/-- the date an instant lies in -/
def date (t : Instant) : Date := Date.ofDayNumber (t.seconds / secondsPerDay + Date.epoch)

/-- the first second that can be represented -/
def firstSecond : Int := (yearStart firstYear - Date.epoch) * secondsPerDay

/-- the end of the last second that can be represented -/
def endSecond : Int := (yearStart (lastYear + 1) - Date.epoch) * secondsPerDay

/-- The instant can be represented. -/
def InRange (t : Instant) : Prop := firstSecond ≤ t.seconds ∧ t.seconds < endSecond

instance (t : Instant) : Decidable t.InRange := inferInstanceAs (Decidable (_ ∧ _))

end Instant

end MarketFeed
