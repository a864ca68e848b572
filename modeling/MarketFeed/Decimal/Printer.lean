import MarketFeed.Decimal.Basic
import MarketFeed.Text.Digit

/-!
# Decimal numbers as text

The text of a decimal writes every decimal place it has, so `1.50` and `1.5` are told apart.

## Main definitions

* `Decimal.chars`, `Decimal.text`: the text of a decimal
-/

namespace MarketFeed.Decimal

open Text

/-- The characters of a decimal: a minus sign for a negative one, at least one digit, and, if
there are decimal places, a point and exactly so many digits. -/
def chars (a : Decimal) : List Char :=
  let ds := padded (a.scale + 1) a.coefficient.natAbs
  let whole := ds.take (ds.length - a.scale)
  let places := ds.drop (ds.length - a.scale)
  (if a.coefficient < 0 then ['-'] else []) ++ whole ++ (if a.scale = 0 then [] else '.' :: places)

/-- the text of a decimal -/
def text (a : Decimal) : String := String.ofList a.chars

end MarketFeed.Decimal
