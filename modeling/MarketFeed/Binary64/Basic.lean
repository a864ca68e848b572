import MarketFeed.Decimal.Arith

/-!
# Double precision numbers

Binary floating point numbers of 53 significant bits, as exact integers: a finite one is
`± significand * 2 ^ exponent`. Every operation takes the exact result and rounds it once.

## Main definitions

* `Binary64`: the numbers, with the infinities and the undefined result
* `Binary64.ofRatio`: the number nearest to a quotient
* `Binary64.ofNat`, `Binary64.mul`, `Binary64.div`
* `Binary64.ofPower10`: the number nearest to `m * 10 ^ e`
-/

namespace MarketFeed

/-- A double precision number. The significand of a finite one is below `2 ^ 53` and the exponent
at least `-1074`; a significand below `2 ^ 52` stands only with the least exponent. -/
inductive Binary64
  | finite (negative : Bool) (significand : Nat) (exponent : Int)
  | infinite (negative : Bool)
  | undefined
  deriving DecidableEq, Repr

namespace Binary64

/-- the exponent of the smallest positive number -/
def leastExponent : Int := -1074

/-- the exponent of the greatest number -/
def greatestExponent : Int := 971

/-- zero with a sign -/
def zero (negative : Bool) : Binary64 := .finite negative 0 leastExponent

/-- `n / (d * 2 ^ e)` rounded to an integer, to nearest with ties to even -/
def scaled (n d : Nat) (e : Int) : Nat :=
  divNearestEven (n * Nat.pow 2 (-e).toNat) (d * Nat.pow 2 e.toNat)

/-- The exponent at which the significand of `n / d` has 53 bits, or the least one. -/
def exponentOf (n d : Nat) : Int :=
  let e : Int := max ((n.log2 : Int) - d.log2 - 53) leastExponent
  if n * Nat.pow 2 (-e).toNat / (d * Nat.pow 2 e.toNat) < Nat.pow 2 53 then e else e + 1

/-- The number nearest to `n / d`, ties to even; beyond the greatest number, infinity. -/
def ofRatio (negative : Bool) (n d : Nat) : Binary64 :=
  if n = 0 then zero negative
  else
    let e := exponentOf n d
    let m := scaled n d e
    let (m, e) := if m = Nat.pow 2 53 then (Nat.pow 2 52, e + 1) else (m, e)
    if greatestExponent < e then .infinite negative else .finite negative m e

/-- the number nearest to a natural number -/
def ofNat (n : Nat) : Binary64 := ofRatio false n 1

/-- the number with the opposite sign -/
def neg : Binary64 → Binary64
  | .finite s m e => .finite (!s) m e
  | .infinite s => .infinite (!s)
  | .undefined => .undefined

/-- The rounded product of finite numbers. -/
def mul : Binary64 → Binary64 → Binary64
  | .finite s m e, .finite t n f =>
    ofRatio (s != t) (m * n * Nat.pow 2 (e + f).toNat) (Nat.pow 2 (-(e + f)).toNat)
  | .undefined, _ | _, .undefined => .undefined
  | .infinite s, .infinite t => .infinite (s != t)
  | .infinite s, .finite t n _ => if n = 0 then .undefined else .infinite (s != t)
  | .finite s m _, .infinite t => if m = 0 then .undefined else .infinite (s != t)

/-- The rounded quotient of numbers. -/
def div : Binary64 → Binary64 → Binary64
  | .finite s m e, .finite t n f =>
    if n = 0 then if m = 0 then .undefined else .infinite (s != t)
    else ofRatio (s != t) (m * Nat.pow 2 (e - f).toNat) (n * Nat.pow 2 (f - e).toNat)
  | .undefined, _ | _, .undefined => .undefined
  | .infinite _, .infinite _ => .undefined
  | .infinite s, .finite t _ _ => .infinite (s != t)
  | .finite s _ _, .infinite t => zero (s != t)

/-- The number nearest to `m * 10 ^ e`. Far outside the range no power needs to be computed. -/
def ofPower10 (negative : Bool) (m : Nat) (e : Int) : Binary64 :=
  if m = 0 then zero negative
  else if e < -(1100 + m.log2 : Nat) then zero negative
  else if 310 < e then .infinite negative
  else ofRatio negative (m * Nat.pow 10 e.toNat) (Nat.pow 10 (-e).toNat)

/-- The number is zero. -/
def isZero : Binary64 → Bool
  | .finite _ m _ => m == 0
  | _ => false

/-- The number is infinite. -/
def isInfinite : Binary64 → Bool
  | .infinite _ => true
  | _ => false

/-- The natural number nearest to a number, a half going up, but at most `limit`. Negative and
undefined numbers give zero. -/
def toNatAtMost (limit : Nat) : Binary64 → Nat
  | .finite true _ _ | .infinite true | .undefined => 0
  | .infinite false => limit
  | .finite false m e =>
    min limit ((2 * m * Nat.pow 2 e.toNat + Nat.pow 2 (-e).toNat) / (2 * Nat.pow 2 (-e).toNat))

end Binary64

end MarketFeed
