import MarketFeed.Feed.Snapshot
import MarketFeed.Market.Product
import MarketFeed.Rest.Exchange

/-!
# The client of the exchange

What is public at the exchange: the products, the ticker of a product and its full book.

## Main definitions

* `Client`: where the exchange is, and how patient the client is
* `Client.Count`: how often a ticker was requested
* `Client.products`, `Client.ticker`, `Client.listing`: the three requests
* `Client.snapshot`: a full book with the time it came

## Main results

* `Client.Count.toNat_succ`: the count does not overflow
-/

namespace MarketFeed

open Json Text

/-- A client of the exchange. -/
structure Client where
  /-- where the exchange is, without a slash at the end -/
  endpoint : String
  /-- how often a ticker is requested while the exchange asks for patience -/
  attempts : Nat
  attempts_pos : 0 < attempts
  /-- the requests are counted in 32 bits -/
  attempts_lt : attempts < UInt32.size

namespace Client

/-- The client for an endpoint. A ticker is requested at least once. -/
def new (endpoint : String) (attempts : UInt32) : Client where
  endpoint := String.ofList (endpoint.toList.reverse.dropWhile (· = '/')).reverse
  attempts := max attempts.toNat 1
  attempts_pos := by omega
  attempts_lt := Nat.max_lt.mpr ⟨attempts.toNat_lt_size, by decide⟩

/-- the address of the products -/
def productsAddress (c : Client) : String := s!"{c.endpoint}/products"

/-- the address of a product's ticker -/
def tickerAddress (c : Client) (id : String) : String := s!"{c.endpoint}/products/{id}/ticker"

/-- the address of a product's full book, order by order -/
def bookAddress (c : Client) (id : String) : String := s!"{c.endpoint}/products/{id}/book?level=3"

/-- Reads a type from the body of a response. -/
def readBody {α : Type} (decode : Decoder α) (body : List Glyph) : Except Fault α :=
  (decode.runGlyphs body).mapError fun f => .rest s!"error decoding response body: {f.message}"

/-- Reads a type from a response of success; any other one is a failure to get `what`. -/
def accept {α : Type} (decode : Decoder α) (what : String) : Nat × List Glyph → Except Fault α
  | (status, body) => if isSuccess status then readBody decode body else .error (.fetch what status)

/-- the products of the exchange -/
def products (c : Client) : Requests (List Product) := do
  let r ← Exchange.get c.productsAddress
  ExceptT.mk (pure (accept (Decoder.list Product.decoder) "active Coinbase Pro markets" r))

/-- How many requests for a ticker have been made, counted in 32 bits. There may be another one. -/
structure Count (c : Client) where
  value : UInt32
  lt : value.toNat < c.attempts

/-- no requests so far -/
def Count.zero {c : Client} : c.Count := ⟨0, c.attempts_pos⟩

/-- Another request can be counted. -/
theorem Count.toNat_succ {c : Client} (made : c.Count) :
    (made.value + 1).toNat = made.value.toNat + 1 := by
  have hroom : made.value.toNat + 1 < UInt32.size := Nat.lt_of_le_of_lt made.lt c.attempts_lt
  rw [UInt32.toNat_add]
  exact Nat.mod_eq_of_lt hroom

/-- The ticker of a product, of which `made` requests have been made. It is requested again while
the exchange asks for patience, as often as the client has the patience. -/
def tickerAfter (c : Client) (id : String) (made : c.Count) : Requests Ticker := do
  let r ← Exchange.get (c.tickerAddress id)
  if more : r.1 = tooManyRequests ∧ (made.value + 1).toNat < c.attempts then
    c.tickerAfter id ⟨made.value + 1, more.2⟩
  else ExceptT.mk (pure (accept Ticker.decoder s!"ticker for {id} on Coinbase Pro" r))
termination_by c.attempts - made.value.toNat
decreasing_by
  have hroom := made.lt
  rw [made.toNat_succ]
  omega

/-- the ticker of a product -/
def ticker (c : Client) (id : String) : Requests Ticker := c.tickerAfter id .zero

/-- the full book of a product -/
def listing (c : Client) (id : String) : Requests Listing := do
  let r ← Exchange.get (c.bookAddress id)
  ExceptT.mk (pure (accept Listing.decoder s!"Coinbase Pro market snapshot for {id}" r))

/-- the full book of a product, with the time it came -/
def snapshot (c : Client) (id : String) : Requests Snapshot := do
  let l ← c.listing id
  let e ← (get : StateM Exchange Exchange)
  return l.stamp id e.now

end Client

end MarketFeed
