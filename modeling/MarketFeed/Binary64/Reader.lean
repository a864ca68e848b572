import MarketFeed.Binary64.Basic
import MarketFeed.Text.Digit

/-!
# Doubles from decimal texts

## Main definitions

* `Binary64.ofChars?`: the double nearest to what a text writes
-/

namespace MarketFeed.Binary64

open Text

/-- Takes an exponent, or nothing, as the whole of a text. -/
def readPower? : List Char → Option Int
  | [] => some 0
  | c :: cs =>
    if c = 'e' ∨ c = 'E' then
      let (negative, ds) := match cs with
        | '-' :: ds => (true, ds)
        | '+' :: ds => (false, ds)
        | ds => (false, ds)
      if ds ≠ [] ∧ ds.all isDigit then
        some (if negative then -(ofDigits ds : Int) else (ofDigits ds : Int))
      else none
    else none

/-- The double that an unsigned text writes: digits with at most one point among them, and perhaps
an exponent. -/
def ofMagnitude? (negative : Bool) (cs : List Char) : Option Binary64 := do
  let (whole, rest) := spanDigits cs
  let (places, rest) := match rest with
    | '.' :: rest => spanDigits rest
    | rest => ([], rest)
  if whole = [] ∧ places = [] then none
  else
    let power ← readPower? rest
    return ofPower10 negative (ofDigits (whole ++ places)) (power - places.length)

/-- The double nearest to what a text writes, after at most one sign. Infinity and the undefined
number have names, in letters of either case. -/
def ofChars? (cs : List Char) : Option Binary64 :=
  let (negative, cs) := match cs with
    | '-' :: cs => (true, cs)
    | '+' :: cs => (false, cs)
    | cs => (false, cs)
  match String.ofList (cs.map Char.toLower) with
  | "inf" | "infinity" => some (.infinite negative)
  | "nan" => some .undefined
  | _ => ofMagnitude? negative cs

end MarketFeed.Binary64
