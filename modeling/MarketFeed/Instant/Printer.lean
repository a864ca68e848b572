import MarketFeed.Instant.Calendar
import MarketFeed.Text.Digit

/-!
# Instants as text

The RFC 3339 form in universal time, with as many fraction digits as are needed in groups of
three. Years outside 0 to 9999 carry a sign.

## Main definitions

* `Instant.chars`, `Instant.text`: the text of an instant
-/

namespace MarketFeed.Instant

open Text

/-- four digits, or a sign and at least four digits -/
def yearChars (y : Int) : List Char :=
  if 0 ≤ y ∧ y ≤ 9999 then padded 4 y.toNat
  else (if y < 0 then '-' else '+') :: padded 4 y.natAbs

/-- the fraction of a second, with none, three, six or nine digits -/
def fractionChars (n : Nat) : List Char :=
  if n = 0 then []
  else if n % 1000000 = 0 then '.' :: padded 3 (n / 1000000)
  else if n % 1000 = 0 then '.' :: padded 6 (n / 1000)
  else '.' :: padded 9 n

/-- The characters of an instant; a leap second is the second after 59. -/
def chars (t : Instant) : List Char :=
  let d := t.date
  let s := t.secondOfDay.toNat
  yearChars d.year ++ '-' :: padded 2 d.month ++ '-' :: padded 2 d.day ++
    'T' :: padded 2 (s / 3600) ++ ':' :: padded 2 (s / 60 % 60) ++
    ':' :: padded 2 (s % 60 + t.nanos / nanosPerSecond) ++
    fractionChars (t.nanos % nanosPerSecond) ++ ['Z']

/-- the text of an instant -/
def text (t : Instant) : String := String.ofList t.chars

end MarketFeed.Instant
