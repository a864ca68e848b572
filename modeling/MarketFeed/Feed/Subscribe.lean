import MarketFeed.Json.Printer

/-!
# The subscription request

## Main definitions

* `subscribeRequest ids`: the request for all events of some products, as JSON
* `subscribeText ids`: its text
-/

namespace MarketFeed

/-- The request for all events of some products. -/
def subscribeRequest (productIds : List String) : Json := .object [
  ("type", .string "subscribe"), ("product_ids", .array (productIds.map Json.string)),
  ("channels", .array [.string "full"])]

/-- The text of the request, sent right after a connection is made. -/
def subscribeText (productIds : List String) : String := (subscribeRequest productIds).text

end MarketFeed
