import MarketFeed.Decimal.Arith

/-!
# Arithmetic that must not overflow

The books add, subtract and divide without a way to go on when a result has no decimal. Such a
computation ends with the operation that failed.

## Main definitions

* `Overflow`: the operation that had no result
* `Decimal.sum`: the rounded sum of a list, from the left
-/

namespace MarketFeed

/-- The operation that had no representable result. -/
inductive Overflow
  | addition
  | subtraction
  | division
  /-- an hour past the last representable instant -/
  | clock
  deriving DecidableEq, Repr

/-- the wording of an overflow -/
def Overflow.message : Overflow → String
  | .addition => "Addition overflowed"
  | .subtraction => "Subtraction overflowed"
  | .division => "Division overflowed"
  | .clock => "`DateTime + TimeDelta` overflowed"

/-- A result that must be there. -/
def orOverflow {α : Type} (o : Overflow) : Option α → Except Overflow α
  | some a => .ok a
  | none => .error o

/-- A computation in two steps has a result if both of them have. -/
theorem bind_eq_ok_iff {ε α β : Type} {x : Except ε α} {f : α → Except ε β} {b : β} :
    x >>= f = .ok b ↔ ∃ a, x = .ok a ∧ f a = .ok b := by
  cases x with
  | error e => simp [bind, Except.bind]
  | ok a => simp [bind, Except.bind]

theorem bind_eq_ok {ε α β : Type} {x : Except ε α} {f : α → Except ε β} {a : α} {b : β}
    (hx : x = .ok a) (hf : f a = .ok b) : x >>= f = .ok b :=
  bind_eq_ok_iff.mpr ⟨a, hx, hf⟩

theorem map_eq_ok_iff {ε α β : Type} {x : Except ε α} {f : α → β} {b : β} :
    x.map f = .ok b ↔ ∃ a, x = .ok a ∧ f a = b := by
  cases x <;> simp [Except.map]

theorem mem_toOption_iff {ε α : Type} {x : Except ε α} {a : α} :
    a ∈ x.toOption ↔ x = .ok a := by
  cases x <;> simp [Except.toOption]

namespace Decimal

/-- the sum of two decimals, or an overflow -/
def plus (a b : Decimal) : Except Overflow Decimal := orOverflow .addition (a.add b)

/-- the difference of two decimals, or an overflow -/
def minus (a b : Decimal) : Except Overflow Decimal := orOverflow .subtraction (a.sub b)

/-- the quotient of two decimals, or an overflow -/
def dividedBy (a b : Decimal) : Except Overflow Decimal := orOverflow .division (a.div b)

/-- The sum of a list of decimals, added up from the left beginning with zero. -/
def sum (as : List Decimal) : Except Overflow Decimal := as.foldlM plus zero

end Decimal

end MarketFeed
