import MarketFeed.Decimal.Basic

/-!
# Rounded arithmetic

Sum, difference, product and quotient of decimals. An exact result that fits is kept with its
decimal places; otherwise trailing digits are dropped, to nearest with ties to even, until the
coefficient and the scale fit. A result whose integer part does not fit has no decimal: each
operation answers `none` for it, and so does division by zero.

## Main definitions

* `Decimal.fit c s`: the decimal nearest to `c / 10 ^ s`
* `Decimal.add`, `Decimal.sub`, `Decimal.mul`, `Decimal.div`
* `Decimal.neg`
-/

namespace MarketFeed

/-- A quotient of natural numbers rounded to nearest, ties to even. -/
def divNearestEven (n d : Nat) : Nat :=
  let q := n / d
  let r := n % d
  if d < 2 * r ∨ (2 * r = d ∧ q % 2 = 1) then q + 1 else q

namespace Decimal

/-- An integer without its last `n` decimal digits, rounded to nearest, ties to even. -/
def roundOff (c : Int) (n : Nat) : Int := c.sign * divNearestEven c.natAbs (Nat.pow 10 n)

/-- The least number of digits whose removal brings both the scale `s` and the magnitude `m`
(before rounding) into range. -/
def surplus (m s : Nat) : Nat :=
  ((List.range' (s - maxScale) (m.log2 + 1)).find? (fun n => m / Nat.pow 10 n < limit)).getD
    (s - maxScale)

/-- The decimal nearest to `c / 10 ^ s` with the fewest digits dropped. Rounding can carry the
coefficient out of range by one; then one more digit goes. -/
def fit (c : Int) (s : Nat) : Option Decimal :=
  let n := surplus c.natAbs s
  if s < n then none
  else
    (ofParts? (roundOff c n) (s - n)).or
      (if s = n then none else ofParts? (roundOff (roundOff c n) 1) (s - n - 1))

/-- the decimal with the opposite sign and the same spelling otherwise -/
def neg (a : Decimal) : Decimal :=
  ⟨-a.coefficient, a.scale, by simpa using a.coefficient_lt, a.scale_le⟩

/-- The rounded sum. Adding zero keeps the spelling of the other summand. -/
def add (a b : Decimal) : Option Decimal :=
  if a.coefficient = 0 then some b
  else if b.coefficient = 0 then some a
  else
    let s := Nat.max a.scale b.scale
    fit (a.coefficient * Int.pow 10 (s - a.scale) + b.coefficient * Int.pow 10 (s - b.scale)) s

/-- The rounded difference. -/
def sub (a b : Decimal) : Option Decimal := a.add b.neg

/-- The rounded product. A product with zero is zero without decimal places, and so is one of
two coefficients below `2 ^ 32` that would need more than 47 places. -/
def mul (a b : Decimal) : Option Decimal :=
  if a.coefficient = 0 ∨ b.coefficient = 0 then some zero
  else if a.coefficient.natAbs < Nat.pow 2 32 ∧ b.coefficient.natAbs < Nat.pow 2 32 ∧
      47 < a.scale + b.scale then some zero
  else fit (a.coefficient * b.coefficient) (a.scale + b.scale)

/-- The greatest number of digits, at most `n`, that can be appended to `q` with the result in
range. -/
def room (q : Nat) : Nat → Nat
  | 0 => 0
  | n + 1 => if q * Nat.pow 10 (n + 1) < limit then n + 1 else room q n

/-- The digits of a quotient found so far: their number `q`, its decimal places (negative where
digits before the point are missing), and whether a remainder was ever met. -/
structure LongDivision where
  q : Nat
  places : Int
  inexact : Bool

namespace LongDivision

/-- a finished quotient, if it has no missing digits -/
def checked (q : Nat) (places : Int) (inexact : Bool) : Option LongDivision :=
  if places < 0 then none else some ⟨q, places, inexact⟩

/-- Drops the last digit of a quotient one digit too long; `rest` tells whether anything
follows it. -/
def shorten (q : Nat) (places : Int) (rest : Bool) : Option LongDivision :=
  let t := q % 10
  let up := 5 < t ∨ (t = 5 ∧ (rest ∨ q / 10 % 2 = 1))
  checked (q / 10 + if up then 1 else 0) (places - 1) true

/-- Rounds a quotient that has no room for another digit: `r / d` is what is left over. -/
def round (q r d : Nat) (places : Int) : Option LongDivision :=
  let q := if d < 2 * r ∨ (2 * r = d ∧ q % 2 = 1) then q + 1 else q
  if q = limit then checked (q / 10 + 1) (places - 1) true else some ⟨q, places, true⟩

/-- Long division in groups of at most nine digits. `q` with `places` are the digits so far and
`r / d` what is left over; a group is as long as the range of coefficients and of scales
allows. Digits before the point that do not fit make the quotient too great, but after a full group
the next one may still bring them. Every step but the last adds a place, so `fuel` above the number
of places still open is never used up. -/
def extend (d : Nat) : Nat → (q r : Nat) → (places : Int) → (inexact : Bool) → Option LongDivision
  | 0, _, _, _, _ => none
  | fuel + 1, q, r, places, inexact =>
    if r = 0 ∧ 0 ≤ places then some ⟨q, places, inexact⟩
    else
      let inexact := inexact || r != 0
      let p := if r = 0 then Nat.min 9 (-places).toNat else room q (Nat.min 9 (28 - places).toNat)
      if places + p < 0 ∧ p < 9 ∧ r ≠ 0 then none
      else if p = 0 then round q r d places
      else
        let places := places + p
        let q := q * Nat.pow 10 p
        if limit ≤ q then none
        else
          let q := q + r * Nat.pow 10 p / d
          let r := r * Nat.pow 10 p % d
          if limit ≤ q then shorten q places (r != 0)
          else extend d fuel q r places inexact

/-- Drops `n` trailing zeros and as many places, if there are so many. -/
def dropZeros (n : Nat) (x : LongDivision) : LongDivision :=
  if (n : Int) ≤ x.places ∧ x.q % Nat.pow 10 n = 0 then
    { x with q := x.q / Nat.pow 10 n, places := x.places - n }
  else x

/-- Drops trailing zeros eight at a time while the coefficient is a multiple of `2 ^ 32`. -/
def dropEights : Nat → LongDivision → LongDivision
  | 0, x => x
  | n + 1, x =>
    if x.q % Nat.pow 2 32 = 0 ∧ 8 ≤ x.places ∧ x.q % Nat.pow 10 8 = 0 then
      dropEights n (x.dropZeros 8)
    else x

/-- The spelling of a quotient: an exact one keeps its places, any other loses trailing
zeros, up to seven besides the groups of eight. -/
def trim (x : LongDivision) : LongDivision :=
  if x.inexact then dropZeros 1 (dropZeros 2 (dropZeros 4 (dropEights 4 x))) else x

end LongDivision

/-- The rounded quotient; `none` for a zero divisor. -/
def div (a b : Decimal) : Option Decimal :=
  if b.coefficient = 0 then none
  else if a.coefficient = 0 then some zero
  else
    let n := a.coefficient.natAbs
    let d := b.coefficient.natAbs
    match LongDivision.extend d 64 (n / d) (n % d) (a.scale - b.scale) false with
    | none => none
    | some x =>
      let x := x.trim
      ofParts? (a.coefficient.sign * b.coefficient.sign * x.q) x.places.toNat

end Decimal

end MarketFeed
