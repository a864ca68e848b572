import MarketFeed.Feed.Diff

/-!
# Full books

A listing is a full book as the exchange gives it, order by order; a snapshot is a listing with the
product it belongs to and the time it was received.

## Main definitions

* `RestingOrder`, `Listing`, `Snapshot`
* `Listing.stamp`: the snapshot of a listing
* `Listing.decoder`: rows of three texts
* `Snapshot.decoder`, `Snapshot.toJson`: snapshots as JSON
-/

namespace MarketFeed

open Json

/-- An order that rests on the book. -/
structure RestingOrder where
  price : Decimal
  size : Decimal
  orderId : String
  deriving DecidableEq

/-- A full book as the exchange gives it. -/
structure Listing where
  sequence : Nat
  bids : List RestingOrder
  asks : List RestingOrder
  deriving DecidableEq

/-- A full book of a product. -/
structure Snapshot where
  productId : String
  timestamp : Instant
  sequence : Nat
  bids : List RestingOrder
  asks : List RestingOrder
  deriving DecidableEq

/-- The snapshot of a product's listing, received at a time. -/
def Listing.stamp (l : Listing) (productId : String) (timestamp : Instant) : Snapshot :=
  ⟨productId, timestamp, l.sequence, l.bids, l.asks⟩

namespace RestingOrder

/-- the JSON form of an order -/
def toJson (o : RestingOrder) : Json := .object [
  ("price", o.price.toJson), ("size", o.size.toJson), ("order_id", .string o.orderId)]

/-- the fields of an order -/
def fields : List Field := [Field.of "price" Decoder.decimal, Field.of "size" Decoder.decimal,
  Field.of "order_id" Decoder.string]

/-- An order is a record of three fields. -/
def decoder : Decoder RestingOrder := fun d => do
  let slots ← Decoder.record "struct SnapshotRow" fields d
  return {
    price := ← slots.required "price" Decoder.decimal
    size := ← slots.required "size" Decoder.decimal
    orderId := ← slots.required "order_id" Decoder.string }

/-- An order from a row of texts: exactly its price, its size and its id. -/
def ofRow : List String → Except DecodeFault RestingOrder
  | [price, size, orderId] => do
    let price ← (Decimal.ofText price).mapError .decimal
    let size ← (Decimal.ofText size).mapError .decimal
    return ⟨price, size, orderId⟩
  | _ => .error .rowShape

end RestingOrder

namespace Listing

/-- A side of a listing: the rows must all be rows of texts before any of them is read. -/
def rows : Decoder (List RestingOrder) := fun d => do
  let texts ← Decoder.list (Decoder.list Decoder.string) d
  texts.mapM RestingOrder.ofRow

/-- the fields of a listing -/
def fields : List Field := [Field.of "sequence" Decoder.u64, Field.of "bids" rows,
  Field.of "asks" rows]

/-- A listing is a record of three fields. -/
def decoder : Decoder Listing := fun d => do
  let slots ← Decoder.record "struct RawSnapshot" fields d
  return {
    sequence := ← slots.required "sequence" Decoder.u64
    bids := ← slots.required "bids" rows
    asks := ← slots.required "asks" rows }

end Listing

namespace Snapshot

/-- the JSON form of a snapshot -/
def toJson (s : Snapshot) : Json := .object [
  ("product_id", .string s.productId), ("timestamp", .string s.timestamp.text),
  ("sequence", .integer s.sequence), ("bids", .array (s.bids.map RestingOrder.toJson)),
  ("asks", .array (s.asks.map RestingOrder.toJson))]

/-- the fields of a snapshot -/
def fields : List Field := [Field.of "product_id" Decoder.string,
  Field.of "timestamp" Decoder.instant, Field.of "sequence" Decoder.u64,
  Field.of "bids" (Decoder.list RestingOrder.decoder),
  Field.of "asks" (Decoder.list RestingOrder.decoder)]

/-- A snapshot is a record of five fields. -/
def decoder : Decoder Snapshot := fun d => do
  let slots ← Decoder.record "struct SnapshotMessage" fields d
  return {
    productId := ← slots.required "product_id" Decoder.string
    timestamp := ← slots.required "timestamp" Decoder.instant
    sequence := ← slots.required "sequence" Decoder.u64
    bids := ← slots.required "bids" (Decoder.list RestingOrder.decoder)
    asks := ← slots.required "asks" (Decoder.list RestingOrder.decoder) }

end Snapshot

end MarketFeed
