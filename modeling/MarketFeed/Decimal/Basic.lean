/-!
# Decimal numbers

A decimal number is a signed coefficient below `2 ^ 96` and a number of decimal places, at most
28. Two decimals of one value may be spelled differently (`1.5` and `1.50`): equality of decimals
is equality of spellings, the order `≤` is the order of values.

## Main definitions

* `Decimal`: coefficient and scale
* `Decimal.cross a b`: the coefficient of `a` brought to the common scale with `b`
* `Decimal.toRat`: the value
* `Decimal.Same`: equality of values
-/

namespace MarketFeed

/-- A decimal number, `coefficient / 10 ^ scale`. -/
structure Decimal where
  coefficient : Int
  scale : Nat
  coefficient_lt : coefficient.natAbs < Nat.pow 2 96
  scale_le : scale ≤ 28
  deriving DecidableEq

namespace Decimal

/-- coefficients are smaller than this -/
def limit : Nat := Nat.pow 2 96

/-- the greatest number of decimal places -/
def maxScale : Nat := 28

/-- The decimal with a given coefficient and scale, if there is one. -/
def ofParts? (coefficient : Int) (scale : Nat) : Option Decimal :=
  if h : coefficient.natAbs < Nat.pow 2 96 ∧ scale ≤ 28 then some ⟨coefficient, scale, h.1, h.2⟩
  else none

/-- a natural number of moderate size, without decimal places -/
def ofNat (n : Nat) (h : n < Nat.pow 2 96 := by decide) : Decimal :=
  ⟨n, 0, by simpa using h, by decide⟩

/-- zero without decimal places -/
def zero : Decimal := ofNat 0

/-- one without decimal places -/
def one : Decimal := ofNat 1

instance : Inhabited Decimal := ⟨zero⟩

/-- The value of a decimal. -/
def toRat (a : Decimal) : Rat := mkRat a.coefficient (Nat.pow 10 a.scale)

/-- The coefficient of `a` after both `a` and `b` are brought to the sum of their scales. -/
def cross (a b : Decimal) : Int := a.coefficient * Int.pow 10 b.scale

/-- The decimals have one value. -/
def Same (a b : Decimal) : Prop := a.cross b = b.cross a

instance : LE Decimal := ⟨fun a b => a.cross b ≤ b.cross a⟩
instance : LT Decimal := ⟨fun a b => a.cross b < b.cross a⟩

instance (a b : Decimal) : Decidable (a.Same b) :=
  inferInstanceAs (Decidable (a.cross b = b.cross a))
instance (a b : Decimal) : Decidable (a ≤ b) :=
  inferInstanceAs (Decidable (a.cross b ≤ b.cross a))
instance (a b : Decimal) : Decidable (a < b) :=
  inferInstanceAs (Decidable (a.cross b < b.cross a))

/-- The greater of two decimals; of two with one value, the left one. -/
def max (a b : Decimal) : Decimal := if a < b then b else a

end Decimal

end MarketFeed
