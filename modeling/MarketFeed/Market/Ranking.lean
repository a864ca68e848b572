import MarketFeed.Feed.Diff
import MarketFeed.Market.Product

/-!
# Ranking markets by volume

The volume of a market is measured in dollars. Markets quoted in something else are converted by
the prices of a few reference markets of the same list.

## Main definitions

* `Market`: a product with its ticker and its volume in dollars
* `CrossRates`: the prices of the reference markets
* `CrossRates.usdPerUnit`: what one unit of a currency is worth
* `rankMarkets`: the markets with their volumes, the greatest first
-/

namespace MarketFeed

open Json

/-- A product with its ticker, and its volume in dollars where that is known. -/
structure Market where
  productId : String
  base : String
  quote : String
  volume : Option Decimal
  price : Option Decimal
  usdVolume : Option Decimal
  deriving DecidableEq

/-- the market of a product, its volume in dollars still unknown -/
def Market.of (p : Product) (t : Ticker) : Market :=
  ⟨p.id, p.base, p.quote, t.volume, t.price, none⟩

/-- the JSON form of a market -/
def Market.toJson (m : Market) : Json := .object [
  ("product_id", .string m.productId), ("base_asset", .string m.base),
  ("quote_asset", .string m.quote), ("volume", Decimal.optionToJson m.volume),
  ("price", Decimal.optionToJson m.price), ("usd_volume", Decimal.optionToJson m.usdVolume)]

/-- The prices of the reference markets. -/
structure CrossRates where
  btcUsd : Option Decimal
  ethUsd : Option Decimal
  btcEur : Option Decimal
  btcGbp : Option Decimal
  deriving DecidableEq

/-- currencies worth a dollar -/
def dollarQuotes : List String := ["USD", "USDC", "USDS", "DAI", "PAX", "TUSD", "USDT"]

/-- the price of the last market with an id that has one -/
def lastPrice? (id : String) (ms : List Market) : Option Decimal :=
  (ms.reverse.find? fun m => m.productId == id && m.price.isSome).bind Market.price

namespace CrossRates

/-- the prices of the reference markets of a list -/
def ofMarkets (ms : List Market) : CrossRates :=
  ⟨lastPrice? "BTC-USD" ms, lastPrice? "ETH-USD" ms, lastPrice? "BTC-EUR" ms,
    lastPrice? "BTC-GBP" ms⟩

/-- the quotient of two prices, if both are there -/
def ratio (a b : Option Decimal) : Option Decimal := do (← a).div (← b)

/-- What one unit of a currency is worth in dollars. Euro and pound are converted by way of
bitcoin. -/
def usdPerUnit (r : CrossRates) (quote : String) : Option Decimal :=
  if dollarQuotes.contains quote then some .one
  else if quote = "BTC" then r.btcUsd
  else if quote = "ETH" then r.ethUsd
  else if quote = "EUR" then ratio r.btcUsd r.btcEur
  else if quote = "GBP" then ratio r.btcUsd r.btcGbp
  else none

/-- the JSON form of the rates -/
def toJson (r : CrossRates) : Json := .object [
  ("btc_usd", Decimal.optionToJson r.btcUsd), ("eth_usd", Decimal.optionToJson r.ethUsd),
  ("btc_eur", Decimal.optionToJson r.btcEur), ("btc_gbp", Decimal.optionToJson r.btcGbp)]

end CrossRates

/-- The volume of a market in dollars: what was traded, times the price, times what a unit of the
price is worth. -/
def Market.usdVolumeAt (m : Market) (rates : CrossRates) : Option Decimal := do
  let rate ← rates.usdPerUnit m.quote
  let traded ← (← m.volume).mul (← m.price)
  traded.mul rate

/-- A market with its volume in dollars filled in; without a rate it stays as it is. -/
def Market.valued (rates : CrossRates) (m : Market) : Market :=
  if (rates.usdPerUnit m.quote).isSome then { m with usdVolume := m.usdVolumeAt rates } else m

/-- A market stands before another: its volume is known and not less, or both are unknown. -/
def Market.before (a b : Market) : Bool :=
  match a.usdVolume, b.usdVolume with
  | some x, some y => y ≤ x
  | none, some _ => false
  | _, none => true

/-- The markets with their volumes in dollars, the greatest first and unknown ones last; equal ones
keep their order. -/
def rankMarkets (ms : List Market) : List Market :=
  (ms.map (Market.valued (CrossRates.ofMarkets ms))).mergeSort Market.before

end MarketFeed
