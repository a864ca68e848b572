import MarketFeed.Json.Decode

/-!
# Products and tickers

## Main definitions

* `Product`: a pair of assets that is traded
* `Ticker`: the last price and the volume of a day
-/

namespace MarketFeed

open Json

/-- A pair of assets that is traded. -/
structure Product where
  id : String
  base : String
  quote : String
  deriving DecidableEq

/-- The last price of a product and its volume within 24 hours, as far as they are known. -/
structure Ticker where
  price : Option Decimal
  volume : Option Decimal
  deriving DecidableEq

namespace Product

/-- the fields of a product -/
def fields : List Field := [Field.of "id" Decoder.string,
  Field.of "base_currency" Decoder.string, Field.of "quote_currency" Decoder.string]

/-- A product is a record of three fields. -/
def decoder : Decoder Product := fun d => do
  let slots ← Decoder.record "struct Product" fields d
  return {
    id := ← slots.required "id" Decoder.string
    base := ← slots.required "base_currency" Decoder.string
    quote := ← slots.required "quote_currency" Decoder.string }

end Product

namespace Ticker

/-- the fields of a ticker -/
def fields : List Field :=
  [Field.defaulting "price" (Decoder.optional Decoder.decimal),
    Field.defaulting "volume" (Decoder.optional Decoder.decimal)]

/-- A ticker is a record of two fields, both of which may be missing. -/
def decoder : Decoder Ticker := fun d => do
  let slots ← Decoder.record "struct Ticker" fields d
  return {
    price := ← slots.optional "price" Decoder.decimal
    volume := ← slots.optional "volume" Decoder.decimal }

end Ticker

end MarketFeed
