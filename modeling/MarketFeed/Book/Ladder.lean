import MarketFeed.Decimal.Basic

/-!
# Price ladders

A ladder assigns something to prices. Prices are told apart by value; a rung keeps the spelling of
the price that it was set up with.

## Main definitions

* `Ladder`: rungs in ascending order of price
* `Ladder.find?`, `Ladder.insert`, `Ladder.erase`
* `Ladder.Ascending`: the order of the rungs
-/

namespace MarketFeed

/-- Rungs in ascending order of price. -/
structure Ladder (α : Type) where
  rungs : List (Decimal × α)
  deriving DecidableEq

namespace Ladder

variable {α : Type}

/-- the ladder without rungs -/
def empty : Ladder α := ⟨[]⟩

instance : Inhabited (Ladder α) := ⟨empty⟩

/-- The prices of the rungs rise strictly. -/
def Ascending (l : Ladder α) : Prop := l.rungs.Pairwise fun x y => x.1 < y.1

/-- what stands at a price -/
def find? (l : Ladder α) (p : Decimal) : Option α :=
  (l.rungs.find? fun r => decide (r.1.Same p)).map Prod.snd

/-- Sets a rung: one with the same price keeps its spelling, a new one goes to its place. -/
def place (p : Decimal) (a : α) : List (Decimal × α) → List (Decimal × α)
  | [] => [(p, a)]
  | r :: rs =>
    if r.1 < p then r :: place p a rs
    else if r.1.Same p then (r.1, a) :: rs
    else (p, a) :: r :: rs

/-- The ladder with something at a price. -/
def insert (l : Ladder α) (p : Decimal) (a : α) : Ladder α := ⟨place p a l.rungs⟩

/-- The ladder with nothing at a price. -/
def erase (l : Ladder α) (p : Decimal) : Ladder α :=
  ⟨l.rungs.filter fun r => ¬ r.1.Same p⟩

/-- the rungs from the lowest price up -/
def ascending (l : Ladder α) : List (Decimal × α) := l.rungs

/-- the rungs from the highest price down -/
def descending (l : Ladder α) : List (Decimal × α) := l.rungs.reverse

/-- the number of rungs -/
def size (l : Ladder α) : Nat := l.rungs.length

end Ladder

end MarketFeed
