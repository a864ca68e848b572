import MarketFeed.Fault
import MarketFeed.Feed.Diff

/-!
# Frames of the feed

A frame is a JSON object that names its type. Four types change the book, three say nothing about
it, and one reports an error of the exchange.

## Main definitions

* `Frame`: the frames by type
* `Frame.parse`: the frame of a text
* `Frame.diff?`: what a frame means for the book
-/

namespace MarketFeed

open Json

/-- A frame of the feed. -/
inductive Frame
  | opened (stamp : Stamp) (orderId : String) (price remaining : Decimal)
  | traded (stamp : Stamp) (tradeId : Nat) (makerId takerId : String) (price size : Decimal)
  | resized (stamp : Stamp) (orderId : String) (price oldSize newSize : Option Decimal)
  /-- an order that never rested has no price -/
  | closed (stamp : Stamp) (orderId : String) (price remaining : Option Decimal) (reason : String)
  | received
  | activate
  | subscriptions
  /-- the exchange reports an error -/
  | refusal (message : String)
  deriving DecidableEq

namespace Frame

/-- A text in a frame, from a value that has been read. -/
def sideDecoder (side : Option Json) : Decoder Side := fun _ =>
  match side with
  | some v => Side.ofValue v
  | none => .error (.missingField "side")

/-- the fields of a frame of a type that changes the book; `side` is the value of its side -/
def fields (side : Option Json) (type : String) : List Field :=
  let text (n : String) := Field.of n Decoder.string
  let amount (n : String) := Field.of n Decoder.decimal
  let perhaps (n : String) := Field.of n (Decoder.optional Decoder.decimal)
  [text "product_id", Field.of "sequence" Decoder.u64, Field.of "time" Decoder.instant,
    Field.of "side" (sideDecoder side)] ++
  match type with
  | "open" => [text "order_id", amount "price", amount "remaining_size"]
  | "match" => [Field.of "trade_id" Decoder.u64, text "maker_order_id", text "taker_order_id",
      amount "price", amount "size"]
  | "change" => [text "order_id", perhaps "price", perhaps "old_size", perhaps "new_size"]
  | _ => [text "order_id", perhaps "price", perhaps "remaining_size", text "reason"]

/-- A frame that changes the book, from its members. They are visited in the order of their keys;
only then missing ones are noticed, in the order of the fields. -/
def ofMembers (type : String) (ms : List (String × Json)) : Except DecodeFault Frame := do
  let ms := settled ms
  let side := lookup? "side" ms
  let ds := Draft.ofMembers ms
  checkMembers (fields side type) [] ds
  let slots := Slots.ofMembers ds
  let text (n : String) := slots.required n Decoder.string
  let amount (n : String) := slots.required n Decoder.decimal
  let perhaps (n : String) := slots.optional n Decoder.decimal
  let stamp : Stamp := {
    productId := ← text "product_id"
    sequence := ← slots.required "sequence" Decoder.u64
    time := ← slots.required "time" Decoder.instant
    side := ← slots.required "side" (sideDecoder side) }
  match type with
  | "open" =>
    return .opened stamp (← text "order_id") (← amount "price") (← amount "remaining_size")
  | "match" =>
    return .traded stamp (← slots.required "trade_id" Decoder.u64) (← text "maker_order_id")
      (← text "taker_order_id") (← amount "price") (← amount "size")
  | "change" =>
    return .resized stamp (← text "order_id") (← perhaps "price") (← perhaps "old_size")
      (← perhaps "new_size")
  | _ =>
    return .closed stamp (← text "order_id") (← perhaps "price") (← perhaps "remaining_size")
      (← slots.orElse "reason" "" Decoder.string)

/-- the types of frames that change the book -/
def bookTypes : List String := Event.kinds

/-- A frame from a value: `raw` is the text it was read from. -/
def ofValue (raw : String) (v : Json) : Except Fault Frame :=
  match (v.member? "type").bind Json.string? with
  | none => .error (.protocol s!"message does not contain a type - {raw}")
  | some "received" => .ok .received
  | some "activate" => .ok .activate
  | some "subscriptions" => .ok .subscriptions
  | some "error" => .ok (.refusal (((v.member? "message").bind Json.string?).getD ""))
  | some type =>
    match v with
    | .object ms =>
      if bookTypes.contains type then
        (ofMembers type ms).mapError fun f => .unreadable f.message
      else .error (.protocol s!"unrecognized message type '{type}' - {raw}")
    | _ => .error (.protocol s!"message does not contain a type - {raw}")

/-- The frame of a text. -/
def parse (raw : String) : Except Fault Frame := do
  let v ← (readText raw).mapError fun f => Fault.unreadable f.message
  ofValue raw v

/-- What a frame means for the book: a diff, or nothing. An order that was closed without a price
never rested. -/
def diff? : Frame → Except Fault (Option Diff)
  | .opened stamp orderId price remaining => .ok (some ⟨stamp, .opened orderId price remaining⟩)
  | .traded stamp tradeId makerId takerId price size =>
    .ok (some ⟨stamp, .traded tradeId makerId takerId price size⟩)
  | .resized stamp orderId price oldSize newSize =>
    .ok (some ⟨stamp, .resized orderId price oldSize newSize⟩)
  | .closed stamp orderId (some price) remaining reason =>
    .ok (some ⟨stamp, .closed orderId price remaining reason⟩)
  | .closed _ _ none _ _ => .ok none
  | .received | .activate | .subscriptions => .ok none
  | .refusal message => .error (.exchange message)

end Frame

end MarketFeed
