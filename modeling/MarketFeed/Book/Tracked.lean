import MarketFeed.Book.Levels

/-!
# Tracked products

The resting orders of a product and the levels that follow from them.

## Main definitions

* `TrackedBook`: orders and levels of a product
* `TrackedBook.ofSnapshot`: both from a snapshot
* `TrackedBook.apply`: both after a diff
-/

namespace MarketFeed

/-- The resting orders of a product, with its levels and the time of the snapshot they began
with. -/
structure TrackedBook where
  productId : String
  timestamp : Instant
  levels : LevelBook
  orders : OrderIndex
  deriving DecidableEq

namespace TrackedBook

variable [A : Arrangement]

/-- The orders of a snapshot and the levels that follow from them. -/
def ofSnapshot (s : Snapshot) : Except Overflow TrackedBook := do
  let (orders, rows) ← OrderIndex.load s
  return ⟨s.productId, s.timestamp, (LevelBook.new s.productId).load rows s.sequence, orders⟩

/-- Applies a diff to the orders and the row that follows to the levels. -/
def apply (t : TrackedBook) (d : Diff) : Except Overflow (TrackedBook × Bool) := do
  let (orders, rows) ← t.orders.apply d
  let (levels, applied) := t.levels.apply rows d.sequence
  return ({ t with levels, orders }, applied)

end TrackedBook

end MarketFeed
