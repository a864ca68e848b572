import MarketFeed.Book.Metrics
import MarketFeed.Book.Orders

/-!
# Books of levels

A book holds the quantity at each price of a product. Every level carries the update that set it
last; a row older than the level it is meant for is dropped.

## Main definitions

* `LevelBook`: the levels of a product
* `LevelBook.load`, `LevelBook.apply`: take the rows of a snapshot or of a diff
* `LevelBook.imbalance`: the volume imbalance of the best levels
* `BookState`, `LevelBook.state`: the best levels and the figures of the whole book
-/

namespace MarketFeed

open Json

/-- The quantity at a price, with the update that set it. -/
structure Standing where
  amount : Decimal
  updateId : Nat
  deriving DecidableEq

/-- The levels of one side. -/
abbrev Standings := Ladder Standing

namespace Standings

/-- Sets the level of a row, or clears it if the amount is not positive; a level that was set by a
later update stays. -/
def write (l : Standings) (r : Row) : Standings :=
  if (l.find? r.price).any (fun s => r.updateId < s.updateId) then l
  else if r.amount ≤ .zero then l.erase r.price
  else l.insert r.price ⟨r.amount, r.updateId⟩

/-- Writes rows one after another. -/
def writeAll (l : Standings) (rows : List Row) : Standings := rows.foldl write l

/-- rungs as levels -/
def levels (rungs : List (Decimal × Standing)) : List Level :=
  rungs.map fun r => ⟨r.1, r.2.amount⟩

end Standings

/-- The levels of a product. -/
structure LevelBook where
  productId : String
  bids : Standings
  asks : Standings
  lastUpdateId : Nat
  initialized : Bool
  deriving DecidableEq

/-- The best levels of a book, and the figures of all of it. -/
structure BookState where
  productId : String
  lastUpdateId : Nat
  bids : List Level
  asks : List Level
  metrics : Metrics
  deriving DecidableEq

namespace LevelBook

/-- the number of levels whose volumes make up the imbalance -/
def imbalanceLevels : Nat := 5

/-- a book without levels that has not seen a snapshot -/
def new (productId : String) : LevelBook := ⟨productId, .empty, .empty, 0, false⟩

/-- Replaces all levels by the rows of a snapshot. -/
def load (b : LevelBook) (rows : Rows) (updateId : Nat) : LevelBook :=
  { b with
    bids := Standings.writeAll .empty rows.bids
    asks := Standings.writeAll .empty rows.asks
    lastUpdateId := updateId
    initialized := true }

/-- An update can be applied: there was a snapshot, and the update is later than the last. -/
def Accepts (b : LevelBook) (updateId : Nat) : Prop := b.initialized ∧ b.lastUpdateId < updateId

instance (b : LevelBook) (n : Nat) : Decidable (b.Accepts n) :=
  inferInstanceAs (Decidable (_ ∧ _))

/-- Writes the rows of a diff. A book that does not accept the update stays as it is and answers
`false`. -/
def apply (b : LevelBook) (rows : Rows) (updateId : Nat) : LevelBook × Bool :=
  if b.Accepts updateId then
    ({ b with
      bids := b.bids.writeAll rows.bids
      asks := b.asks.writeAll rows.asks
      lastUpdateId := updateId }, true)
  else (b, false)

/-- the highest price bid -/
def bestBid (b : LevelBook) : Option Decimal := b.bids.descending.head?.map Prod.fst

/-- the lowest price asked -/
def bestAsk (b : LevelBook) : Option Decimal := b.asks.ascending.head?.map Prod.fst

/-- the levels of the bids, the best first -/
def bidLevels (b : LevelBook) : List Level := Standings.levels b.bids.descending

/-- the levels of the asks, the best first -/
def askLevels (b : LevelBook) : List Level := Standings.levels b.asks.ascending

/-- The imbalance of the volumes of the best `n` levels of each side. -/
def imbalance (b : LevelBook) (n : Nat) : Except Overflow (Option Decimal) := do
  volumeImbalance (← volume (b.bidLevels.take n)) (← volume (b.askLevels.take n))

/-- The best `depth` levels of each side, with the figures of the whole book. -/
def state (b : LevelBook) (depth : Nat) : Except Overflow BookState := do
  let metrics ← Metrics.compute b.bidLevels b.askLevels imbalanceLevels
  return ⟨b.productId, b.lastUpdateId, b.bidLevels.take depth, b.askLevels.take depth, metrics⟩

end LevelBook

namespace BookState

/-- the JSON form of a book's state -/
def toJson (s : BookState) : Json := .object [
  ("product_id", .string s.productId), ("last_update_id", .integer s.lastUpdateId),
  ("bids", .array (s.bids.map Level.toJson)), ("asks", .array (s.asks.map Level.toJson)),
  ("metrics", s.metrics.toJson)]

/-- the fields of a book's state -/
def fields : List Field := [Field.of "product_id" Decoder.string,
  Field.of "last_update_id" Decoder.u64, Field.of "bids" (Decoder.list Level.decoder),
  Field.of "asks" (Decoder.list Level.decoder), Field.of "metrics" Metrics.decoder]

/-- A book's state is a record of five fields. -/
def decoder : Decoder BookState := fun d => do
  let slots ← Decoder.record "struct OrderBookState" fields d
  return {
    productId := ← slots.required "product_id" Decoder.string
    lastUpdateId := ← slots.required "last_update_id" Decoder.u64
    bids := ← slots.required "bids" (Decoder.list Level.decoder)
    asks := ← slots.required "asks" (Decoder.list Level.decoder)
    metrics := ← slots.required "metrics" Metrics.decoder }

end BookState

end MarketFeed
