import MarketFeed.Decimal.Overflow
import MarketFeed.Feed.Diff

/-!
# Summary figures of a book

## Main definitions

* `Level`: a price and the quantity offered at it
* `mid`, `spread`, `volumeImbalance`: figures of two best prices, or of two volumes
* `Metrics`, `Metrics.compute`: the figures of a book
* `Metrics.IsHealthy`: both sides have offers and do not cross
-/

namespace MarketFeed

open Json

/-- A price and the quantity offered at it. -/
structure Level where
  price : Decimal
  quantity : Decimal
  deriving DecidableEq

/-- the total quantity of levels -/
def volume (levels : List Level) : Except Overflow Decimal :=
  Decimal.sum (levels.map Level.quantity)

/-- The mean of the best prices. -/
def mid (bid ask : Decimal) : Except Overflow (Option Decimal) := do
  let total ← bid.plus ask
  return total.div (.ofNat 2)

/-- The distance of the best prices in hundredths of a percent of their mean; there is none if the
mean is not positive or the result too large. -/
def spread (bid ask : Decimal) : Except Overflow (Option Decimal) := do
  match ← mid bid ask with
  | none => return none
  | some m =>
    if m ≤ .zero then return none
    else
      let distance ← ask.minus bid
      let ratio ← distance.dividedBy m
      return ratio.mul (.ofNat 10000)

/-- The share by which one volume exceeds the other; there is none for volumes of a total that is
not positive. -/
def volumeImbalance (bid ask : Decimal) : Except Overflow (Option Decimal) := do
  let total ← bid.plus ask
  if total ≤ .zero then return none
  else
    let excess ← bid.minus ask
    return some (← excess.dividedBy total)

/-- The figures of a book. -/
structure Metrics where
  midPrice : Option Decimal
  spreadBps : Option Decimal
  imbalance : Option Decimal
  bidDepth : Decimal
  askDepth : Decimal
  bidLevels : Nat
  askLevels : Nat
  deriving DecidableEq

namespace Metrics

/-- a figure of the best prices, where both sides have one -/
def ofBest (figure : Decimal → Decimal → Except Overflow (Option Decimal)) :
    List Level → List Level → Except Overflow (Option Decimal)
  | bid :: _, ask :: _ => figure bid.price ask.price
  | _, _ => .ok none

/-- The figures of levels in order, the best first; the imbalance is that of the first `top` levels
of each side. -/
def compute (bids asks : List Level) (top : Nat) : Except Overflow Metrics := do
  let midPrice ← ofBest mid bids asks
  let spreadBps ← ofBest spread bids asks
  let imbalance ← volumeImbalance (← volume (bids.take top)) (← volume (asks.take top))
  let bidDepth ← volume bids
  let askDepth ← volume asks
  return ⟨midPrice, spreadBps, imbalance, bidDepth, askDepth, bids.length, asks.length⟩

/-- Both sides have offers, and the best prices do not cross. -/
def IsHealthy (m : Metrics) : Prop :=
  0 < m.bidLevels ∧ 0 < m.askLevels ∧ ∃ s, m.spreadBps = some s ∧ Decimal.zero ≤ s

instance (m : Metrics) : Decidable m.IsHealthy :=
  match h : m.spreadBps with
  | none => isFalse fun ⟨_, _, _, hs, _⟩ => by simp [h] at hs
  | some s =>
    decidable_of_iff (0 < m.bidLevels ∧ 0 < m.askLevels ∧ Decimal.zero ≤ s) <| by
      simp [IsHealthy, h]

/-- the JSON form of the figures -/
def toJson (m : Metrics) : Json := .object [
  ("mid_price", Decimal.optionToJson m.midPrice),
  ("spread_bps", Decimal.optionToJson m.spreadBps),
  ("imbalance", Decimal.optionToJson m.imbalance),
  ("bid_depth", m.bidDepth.toJson), ("ask_depth", m.askDepth.toJson),
  ("bid_levels", .integer m.bidLevels), ("ask_levels", .integer m.askLevels)]

/-- the fields of the figures -/
def fields : List Field :=
  let perhaps (n : String) := Field.of n (Decoder.optional Decoder.decimal)
  [perhaps "mid_price", perhaps "spread_bps", perhaps "imbalance",
    Field.of "bid_depth" Decoder.decimal, Field.of "ask_depth" Decoder.decimal,
    Field.of "bid_levels" Decoder.usize, Field.of "ask_levels" Decoder.usize]

/-- Figures are a record of seven fields. -/
def decoder : Decoder Metrics := fun d => do
  let slots ← Decoder.record "struct OrderBookMetrics" fields d
  return {
    midPrice := ← slots.optional "mid_price" Decoder.decimal
    spreadBps := ← slots.optional "spread_bps" Decoder.decimal
    imbalance := ← slots.optional "imbalance" Decoder.decimal
    bidDepth := ← slots.required "bid_depth" Decoder.decimal
    askDepth := ← slots.required "ask_depth" Decoder.decimal
    bidLevels := ← slots.required "bid_levels" Decoder.usize
    askLevels := ← slots.required "ask_levels" Decoder.usize }

end Metrics

namespace Level

/-- the JSON form of a level -/
def toJson (l : Level) : Json :=
  .object [("price", l.price.toJson), ("quantity", l.quantity.toJson)]

/-- the fields of a level -/
def fields : List Field :=
  [Field.of "price" Decoder.decimal, Field.of "quantity" Decoder.decimal]

/-- A level is a record of two fields. -/
def decoder : Decoder Level := fun d => do
  let slots ← Decoder.record "struct Level" fields d
  return {
    price := ← slots.required "price" Decoder.decimal
    quantity := ← slots.required "quantity" Decoder.decimal }

end Level

end MarketFeed
