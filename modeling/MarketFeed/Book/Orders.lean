import MarketFeed.Book.Ladder
import MarketFeed.Decimal.Overflow
import MarketFeed.Feed.Snapshot
import MarketFeed.Table

/-!
# Resting orders by price

The exchange speaks of single orders, the book of levels. An index holds the size of every resting
order by side and price, and answers every event with the new size of the level it touches.

The sizes at a price are added up in the order in which a map happens to list them. That order is
nobody's choice, and any change of the map can bring another one; it matters where a sum is rounded
or overflows.

## Main definitions

* `Row`: the size of a level, with the update that set it
* `Arrangement`: how the maps of orders happen to list them
* `OrderIndex`: the resting orders of a product
* `OrderIndex.load`: takes a snapshot
* `OrderIndex.apply`: takes a diff
-/

namespace MarketFeed

/-- The size of a level, with the update that set it. -/
structure Row where
  price : Decimal
  amount : Decimal
  updateId : Nat
  deriving DecidableEq

/-- Rows of both sides. -/
structure Rows where
  bids : List Row
  asks : List Row
  deriving DecidableEq

/-- no rows -/
def Rows.none : Rows := ⟨[], []⟩

/-- one row on a side -/
def Rows.single : Side → Row → Rows
  | .buy, r => ⟨[r], []⟩
  | .sell, r => ⟨[], [r]⟩

/-- An update that changes the orders at a price of a side. -/
structure Touch where
  productId : String
  sequence : Nat
  time : Instant
  side : Side
  price : Decimal

/-- How the map of the orders at a price happens to list them after each update that changes it. -/
class Arrangement where
  arrange : Touch → Table Decimal → Table Decimal
  alike : ∀ touch t, (arrange touch t).Alike t

/-- The orders at a price stand as they came. -/
instance Arrangement.arrival : Arrangement := ⟨fun _ t => t, fun _ t => .refl t⟩

/-- The sizes of the orders of one side, by price and order. -/
abbrev Orders := Ladder (Table Decimal)

namespace Orders

/-- the orders at a price -/
def level (o : Orders) (p : Decimal) : Table Decimal := (o.find? p).getD .empty

/-- the size of an order -/
def size? (o : Orders) (p : Decimal) (id : String) : Option Decimal := (o.level p).find? id

/-- Sets the size of an order. -/
def set (o : Orders) (p : Decimal) (id : String) (size : Decimal) : Orders :=
  o.insert p ((o.level p).insert id size)

/-- Takes an order out; a price without orders is given up. -/
def remove (o : Orders) (p : Decimal) (id : String) : Orders :=
  let rest := (o.level p).erase id
  if rest.isEmpty then o.erase p else o.insert p rest

/-- the total size at a price -/
def amount (o : Orders) (p : Decimal) : Except Overflow Decimal := Decimal.sum (o.level p).values

/-- the orders of a side of a snapshot; of two with one price and one id the later stays -/
def ofList (rows : List RestingOrder) : Orders :=
  rows.foldl (fun o r => o.set r.price r.orderId r.size) .empty

/-- the orders with those at each price put in another order -/
def rearrange (f : Decimal → Table Decimal → Table Decimal) (o : Orders) : Orders :=
  ⟨o.rungs.map fun r => (r.1, f r.1 r.2)⟩

/-- the number of orders -/
def count (o : Orders) : Nat := o.rungs.foldl (fun n r => n + r.2.size) 0

/-- the rows of rungs, all set by one update -/
def rows (updateId : Nat) (rungs : List (Decimal × Table Decimal)) : Except Overflow (List Row) :=
  rungs.mapM fun r => do return ⟨r.1, ← Decimal.sum r.2.values, updateId⟩

/-- What an event does to the orders of its side, and the price of the level that it touches. An
event for an order that does not rest touches nothing. -/
def apply (o : Orders) : Event → Except Overflow (Orders × Option Decimal)
  | .opened id price remaining => .ok (o.set price id remaining, some price)
  | .closed id price _ _ =>
    match o.size? price id with
    | some _ => .ok (o.remove price id, some price)
    | none => .ok (o, none)
  | .resized id (some price) _ (some size) =>
    match o.size? price id with
    | some _ => .ok (o.set price id size, some price)
    | none => .ok (o, none)
  | .resized .. => .ok (o, none)
  | .traded _ id _ price traded =>
    match o.size? price id with
    | some size => do
      let rest ← size.minus traded
      return (o.set price id (rest.max .zero), some price)
    | none => .ok (o, none)

end Orders

/-- The resting orders of a product. -/
structure OrderIndex where
  bids : Orders
  asks : Orders
  deriving DecidableEq

namespace OrderIndex

variable [A : Arrangement]

/-- no orders -/
def empty : OrderIndex := ⟨.empty, .empty⟩

/-- the orders of a side -/
def side (x : OrderIndex) : Side → Orders
  | .buy => x.bids
  | .sell => x.asks

/-- Replaces the orders of a side. -/
def withSide (x : OrderIndex) : Side → Orders → OrderIndex
  | .buy, o => { x with bids := o }
  | .sell, o => { x with asks := o }

/-- the number of resting orders -/
def count (x : OrderIndex) : Nat := x.bids.count + x.asks.count

/-- The orders of a side of a snapshot, as they happen to be listed. -/
def sideOfSnapshot (s : Snapshot) (side : Side) (rows : List RestingOrder) : Orders :=
  (Orders.ofList rows).rearrange fun price =>
    Arrangement.arrange ⟨s.productId, s.sequence, s.timestamp, side, price⟩

/-- the orders of a snapshot -/
def ofSnapshot (s : Snapshot) : OrderIndex :=
  ⟨sideOfSnapshot s .buy s.bids, sideOfSnapshot s .sell s.asks⟩

/-- The orders of the side of a diff, those at the price that it touches as they happen to be listed
then. -/
def listAnew (d : Diff) (price : Decimal) (o : Orders) : Orders :=
  o.rearrange fun p t =>
    if p.Same price then Arrangement.arrange ⟨d.productId, d.sequence, d.time, d.side, price⟩ t
    else t

/-- Takes a snapshot in place of all orders, and answers the rows of all levels, the best price of
each side first. -/
def load (s : Snapshot) : Except Overflow (OrderIndex × Rows) := do
  let x := ofSnapshot s
  let bids ← Orders.rows s.sequence x.bids.descending
  let asks ← Orders.rows s.sequence x.asks.ascending
  return (x, ⟨bids, asks⟩)

/-- Takes a diff, and answers the row of the level that it touches. -/
def apply (x : OrderIndex) (d : Diff) : Except Overflow (OrderIndex × Rows) := do
  let (o, touched) ← (x.side d.side).apply d.event
  match touched with
  | none => return (x.withSide d.side o, .none)
  | some price =>
    let o := listAnew d price o
    let amount ← o.amount price
    return (x.withSide d.side o, .single d.side ⟨price, amount, d.sequence⟩)

end OrderIndex

end MarketFeed
