import MarketFeed.Feed.Side
import MarketFeed.Decimal.Printer
import MarketFeed.Instant.Printer
import MarketFeed.Json.Printer

/-!
# Changes of a book

A diff is one event in the life of an order, stamped with the product, its place in the stream of
that product, its time and the side of the order.

## Main definitions

* `Event`: what happened to an order
* `Stamp`, `Diff`: an event with its place in the stream
* `Diff.decoder`, `Diff.toJson`: diffs as JSON
-/

namespace MarketFeed

open Json

/-- What happened to an order. -/
inductive Event
  /-- an order rests on the book from now on -/
  | opened (orderId : String) (price remaining : Decimal)
  /-- a resting order was traded against an incoming one -/
  | traded (tradeId : Nat) (makerId takerId : String) (price size : Decimal)
  /-- a resting order changed its size -/
  | resized (orderId : String) (price oldSize newSize : Option Decimal)
  /-- an order left the book -/
  | closed (orderId : String) (price : Decimal) (remaining : Option Decimal) (reason : String)
  deriving DecidableEq

/-- the kind of an event in messages -/
def Event.kind : Event → String
  | .opened .. => "open"
  | .traded .. => "match"
  | .resized .. => "change"
  | .closed .. => "done"

/-- the kinds of events -/
def Event.kinds : List String := ["open", "match", "change", "done"]

/-- Where an event belongs. -/
structure Stamp where
  productId : String
  sequence : Nat
  time : Instant
  side : Side
  deriving DecidableEq

/-- An event with its place in the stream of a product. -/
structure Diff extends Stamp where
  event : Event
  deriving DecidableEq

/-- the kind of a diff is that of its event -/
def Diff.kind (d : Diff) : String := d.event.kind

/-- a decimal as JSON is its text -/
def Decimal.toJson (a : Decimal) : Json := .string a.text

/-- a decimal that may be missing; then it is null -/
def Decimal.optionToJson : Option Decimal → Json
  | some a => a.toJson
  | none => .null

/-- the JSON form of an event: its kind, then its fields -/
def Event.toJson : Event → Json
  | .opened orderId price remaining => .object [
      ("kind", .string "open"), ("order_id", .string orderId), ("price", price.toJson),
      ("remaining_size", remaining.toJson)]
  | .traded tradeId makerId takerId price size => .object [
      ("kind", .string "match"), ("trade_id", .integer tradeId),
      ("maker_order_id", .string makerId), ("taker_order_id", .string takerId),
      ("price", price.toJson), ("size", size.toJson)]
  | .resized orderId price oldSize newSize => .object [
      ("kind", .string "change"), ("order_id", .string orderId),
      ("price", Decimal.optionToJson price), ("old_size", Decimal.optionToJson oldSize),
      ("new_size", Decimal.optionToJson newSize)]
  | .closed orderId price remaining reason => .object [
      ("kind", .string "done"), ("order_id", .string orderId), ("price", price.toJson),
      ("remaining_size", Decimal.optionToJson remaining), ("reason", .string reason)]

/-- the JSON form of a diff -/
def Diff.toJson (d : Diff) : Json := .object [
  ("product_id", .string d.productId), ("sequence", .integer d.sequence),
  ("time", .string d.time.text), ("side", .string d.side.name), ("event", d.event.toJson)]

namespace Event

/-- the fields of an event of a kind -/
def fields (kind : String) : List Field :=
  let text (n : String) := Field.of n Decoder.string
  let amount (n : String) := Field.of n Decoder.decimal
  let perhaps (n : String) := Field.of n (Decoder.optional Decoder.decimal)
  match kind with
  | "open" => [text "order_id", amount "price", amount "remaining_size"]
  | "match" => [Field.of "trade_id" Decoder.u64, text "maker_order_id", text "taker_order_id",
      amount "price", amount "size"]
  | "change" => [text "order_id", perhaps "price", perhaps "old_size", perhaps "new_size"]
  | _ => [text "order_id", amount "price", perhaps "remaining_size", text "reason"]

/-- what an event of a kind is called in faults -/
def shape (kind : String) : String :=
  "struct variant DiffEvent::" ++
    match kind with
    | "open" => "Open"
    | "match" => "Match"
    | "change" => "Change"
    | _ => "Done"

/-- An event of a kind from its fields. -/
def ofSlots (kind : String) (slots : Slots) : Except DecodeFault Event := do
  let text (n : String) := slots.required n Decoder.string
  let amount (n : String) := slots.required n Decoder.decimal
  let perhaps (n : String) := slots.optional n Decoder.decimal
  match kind with
  | "open" =>
    return .opened (← text "order_id") (← amount "price") (← amount "remaining_size")
  | "match" =>
    return .traded (← slots.required "trade_id" Decoder.u64) (← text "maker_order_id")
      (← text "taker_order_id") (← amount "price") (← amount "size")
  | "change" =>
    return .resized (← text "order_id") (← perhaps "price") (← perhaps "old_size")
      (← perhaps "new_size")
  | _ =>
    return .closed (← text "order_id") (← amount "price") (← perhaps "remaining_size")
      (← text "reason")

/-- The kind of an event, from the value of its tag. -/
def kindOf : Decoder String
  | .string s => if kinds.contains s then .ok s else .error (.unknownVariant s kinds)
  | d => Decoder.refuse "variant identifier" d

/-- Reads the members of an event in the order of the text up to the faults of their form: the tag
must be a known kind and stand once, all other values are kept. -/
def readMembers : (kind : Option String) → List (Draft × Draft) →
    Except DecodeFault (Option String × List (String × Json))
  | kind, [] => .ok (kind, [])
  | kind, (k, v) :: ms => do
    let name ← wellFormed k.key
    if name = "kind" then
      if kind.isSome then .error (.duplicateField "kind")
      else readMembers (some (← kindOf v)) ms
    else
      let j ← wellFormed (v.value (Draft.maxDepth - 2))
      let (kind, rest) ← readMembers kind ms
      return (kind, (name, j) :: rest)

/-- An event of a kind from an object without its tag. -/
def ofMembers (kind : String) (ms : List (String × Json)) : Except DecodeFault Event := do
  let ds := Draft.ofMembers ms
  checkMembers (fields kind) [] ds
  ofSlots kind (Slots.ofMembers ds)

/-- An event of a kind from the items of an array behind its tag. -/
def ofItems (kind : String) (vs : List Json) : Except DecodeFault Event := do
  let ds := Draft.ofItems vs
  let fs := fields kind
  checkItems fs ds
  if ds.length < fs.length then
    .error (.invalidLength ds.length s!"{shape kind} with {fs.length} elements")
  else if fs.length < ds.length then
    .error (.invalidLength ds.length s!"{fs.length} elements in sequence")
  else ofSlots kind (Slots.ofItems fs ds)

/-- An event is an object with its kind among the members, or an array with its kind in front. -/
def decoder : Decoder Event
  | .object members stop => do
    let (kind, ms) ← readMembers none members
    match stop with
    | some flaw => .error (.malformed flaw.strict)
    | none =>
      match kind with
      | some kind => ofMembers kind ms
      | none => .error (.missingField "kind")
  | .array items stop => do
    let strict : Except DecodeFault Unit := match stop with
      | some flaw => .error (.malformed flaw.strict)
      | none => .ok ()
    match items with
    | [] =>
      strict
      .error (.missingField "kind")
    | v :: vs =>
      let kind ← kindOf v
      let js ← wellFormed (Draft.values (Draft.maxDepth - 2) vs)
      strict
      ofItems kind js
  | d => Decoder.refuse "internally tagged enum DiffEvent" d

end Event

namespace Diff

/-- the fields of a diff -/
def fields : List Field := [Field.of "product_id" Decoder.string,
  Field.of "sequence" Decoder.u64, Field.of "time" Decoder.instant,
  Field.of "side" Side.decoder, Field.of "event" Event.decoder]

/-- A diff is a record of five fields. -/
def decoder : Decoder Diff := fun d => do
  let slots ← Decoder.record "struct DiffMessage" fields d
  return {
    productId := ← slots.required "product_id" Decoder.string
    sequence := ← slots.required "sequence" Decoder.u64
    time := ← slots.required "time" Decoder.instant
    side := ← slots.required "side" Side.decoder
    event := ← slots.required "event" Event.decoder }

end Diff

end MarketFeed
