import MarketFeed.Json.Basic
import MarketFeed.Listener.Status

/-!
# Health

## Main definitions

* `Health`: what a service tells of itself
* `Health.toJson`: its JSON form
-/

namespace MarketFeed

/-- What a service tells of itself. -/
structure Health where
  listener : Status
  /-- how many products have a book -/
  books : Nat
  deriving DecidableEq

namespace Health

/-- The service waits to reconnect, so its books fall behind. -/
def degraded (h : Health) : Bool := h.listener == .reconnectWait

/-- the JSON form of the health -/
def toJson (h : Health) : Json := .object [
  ("status", .string (if h.degraded then "degraded" else "healthy")),
  ("component", .string "cbpro-market-data"), ("books", .integer h.books),
  ("listener", .string h.listener.name)]

end Health

end MarketFeed
