import MarketFeed.Binary64.Basic
import MarketFeed.Text.Digit

/-!
# The shortest decimal digits of a double

Of the decimal numbers that read back as a given double, those with the fewest digits are taken,
of these the nearest, and of two equally near ones the even.

## Main definitions

* `Binary64.shortest m e`: digits and power of ten for the double `m * 2 ^ e`
* `Binary64.plainText`: all digits written out, no exponent
* `Binary64.scientificText`: at least one decimal, an exponent for very large and small numbers
-/

namespace MarketFeed.Binary64

open Text

/-- The exact decimal expansion of `m * 2 ^ e`: an integer and the number of its decimal
places. -/
def expansion (m : Nat) (e : Int) : Nat × Nat :=
  if e < 0 then (m * Nat.pow 5 (-e).toNat, (-e).toNat) else (m * Nat.pow 2 e.toNat, 0)

/-- Compares `c * 10 ^ t` with `x * 2 ^ e`. -/
def compareGrid (c : Nat) (t : Int) (x : Nat) (e : Int) : Ordering :=
  compare (c * Nat.pow 10 t.toNat * Nat.pow 2 (-e).toNat)
    (x * Nat.pow 2 e.toNat * Nat.pow 10 (-t).toNat)

/-- `c * 10 ^ t` reads back as the double `m * 2 ^ e`: it lies in the interval of numbers nearer to
it than to its neighbours, whose ends belong to it iff `m` is even. -/
def readsBack (m : Nat) (e : Int) (c : Nat) (t : Int) : Bool :=
  let below := if m = Nat.pow 2 52 ∧ leastExponent < e then 4 * m - 1 else 4 * m - 2
  let low := compareGrid c t below (e - 2)
  let high := compareGrid c t (4 * m + 2) (e - 2)
  (low == .gt && high == .lt) || (m % 2 == 0 && (low == .eq || high == .eq))

/-- The point of the grid `10 ^ t` nearest to `m * 2 ^ e` that reads back, if any does. -/
def onGrid? (m : Nat) (e t : Int) : Option Nat :=
  let (n, s) := expansion m e
  let u : Int := t + s
  let unit := Nat.pow 10 u.toNat
  let c := n * Nat.pow 10 (-u).toNat / unit
  let r := n * Nat.pow 10 (-u).toNat % unit
  let lower := readsBack m e c t
  let upper := readsBack m e (c + 1) t
  if lower ∧ upper then
    some (if 2 * r < unit ∨ (2 * r = unit ∧ c % 2 = 0) then c else c + 1)
  else if lower then some c
  else if upper then some (c + 1)
  else none

/-- The shortest digits of the positive double `m * 2 ^ e`, as an integer without trailing zeros
and a power of ten. Seventeen digits always suffice. -/
def shortest (m : Nat) (e : Int) : Nat × Int :=
  let (n, s) := expansion m e
  let top : Int := (digits n).length - s
  let grids := (List.range 17).map fun (k : Nat) => top - 1 - k
  match grids.findSome? (fun t => (onGrid? m e t).map (·, t)) with
  | some (c, t) =>
    if c % 10 = 0 then (c / 10, t + 1) else (c, t)
  | none => (n, -s)

/-- The digits `ds`, the first standing for `10 ^ (point - 1)`, written out around the point. -/
def positional (ds : List Char) (point : Int) : List Char × List Char :=
  if point ≤ 0 then (['0'], List.replicate (-point).toNat '0' ++ ds)
  else
    (ds.take point.toNat ++ List.replicate (point.toNat - ds.length) '0', ds.drop point.toNat)

/-- a minus sign for negative numbers -/
def sign (negative : Bool) : List Char := if negative then ['-'] else []

/-- The shortest digits written out without an exponent, and without a point for a whole
number. -/
def plainText : Binary64 → String
  | .undefined => "NaN"
  | .infinite s => String.ofList (sign s ++ ['i', 'n', 'f'])
  | .finite s m e =>
    if m = 0 then String.ofList (sign s ++ ['0'])
    else
      let (c, t) := shortest m e
      let ds := digits c
      let (whole, places) := positional ds (ds.length + t)
      String.ofList (sign s ++ whole ++ (if places = [] then [] else '.' :: places))

/-- The shortest digits with at least one decimal, written out from `0.00001` to below
`10 ^ 16` and with an exponent that has a sign outside this range. -/
def scientificText : Binary64 → String
  | .undefined => "NaN"
  | .infinite s => String.ofList (sign s ++ ['i', 'n', 'f'])
  | .finite s m e =>
    if m = 0 then String.ofList (sign s ++ ['0', '.', '0'])
    else
      let (c, t) := shortest m e
      let ds := digits c
      let point : Int := ds.length + t
      if -5 < point ∧ point ≤ 16 then
        let (whole, places) := positional ds point
        String.ofList (sign s ++ whole ++ '.' :: (if places = [] then ['0'] else places))
      else
        let power := point - 1
        let exponent := (if power < 0 then '-' else '+') :: digits power.natAbs
        let tail := if ds.length = 1 then [] else '.' :: ds.drop 1
        String.ofList (sign s ++ ds.take 1 ++ tail ++ 'e' :: exponent)

end MarketFeed.Binary64
