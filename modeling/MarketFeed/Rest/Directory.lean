import MarketFeed.Cache.SingleFlight
import MarketFeed.Market.Ranking
import MarketFeed.Rest.Client

/-!
# The markets of the exchange

The ranking of all markets takes many requests. It is kept for a while, and callers that come while
it is being made share it.

## Main definitions

* `Client.markets`: the ranked markets
* `Directory`: what is kept of them
* `Directory.consult`: the markets for some callers at once
* `Pairs`: the products that are followed, named or found in the directory
-/

namespace MarketFeed

namespace Client

/-- The markets of some products, each with its own ticker. -/
def marketsOf (c : Client) : List Product → Requests (List Market)
  | [] => return []
  | p :: ps => do
    let t ← c.ticker p.id
    return Market.of p t :: (← c.marketsOf ps)

/-- The markets of the exchange, ranked. The first failure is the failure of the whole. -/
def markets (c : Client) : Requests (List Market) := do
  let products ← c.products
  return rankMarkets (← c.marketsOf products)

end Client

/-- What is kept of the markets. Nothing is in flight while nobody waits for it. -/
structure Directory where
  /-- how long the markets are kept -/
  ttl : Nat
  /-- the markets, and when they stop being fresh -/
  stored : Option (List Market × Nat)

namespace Directory

/-- a directory that keeps the markets for a while -/
def new (ttl : Nat) : Directory := ⟨ttl, none⟩

/-- the cache for those who come next -/
def cache (d : Directory) : SingleFlight (List Market) :=
  { SingleFlight.new d.ttl with stored := d.stored }

/-- The markets for some callers that come together, one result for each. The refresh that the
first of them may start has an end that all of them share. -/
def consult (d : Directory) (c : Client) (now callers : Nat) :
    StateM Exchange (List (Except Fault (List Market)) × Directory) := do
  let ids := List.range callers
  let called := ids.foldl (fun s id => s.step now (.call id)) d.cache
  let ended ← match called.inFlight with
    | some refresh => do
      let r ← c.markets.run
      pure (called.step now (.finish refresh r))
    | none => pure called
  let cache := ids.foldl (fun s id => s.step now (.resume id)) ended
  let results := ids.filterMap fun id =>
    match cache.phase id with
    | .returned r => some r
    | _ => none
  return (results, { d with stored := cache.stored })

/-- The markets for one caller, who is sure to have a result. -/
def markets (d : Directory) (c : Client) (now : Nat) :
    StateM Exchange (Except Fault (List Market) × Directory) := do
  let (results, d) ← d.consult c now 1
  return (results.headD (.ok []), d)

end Directory

/-- The products that are followed: named once and for all, or those of the directory. -/
inductive Pairs
  | named (ids : List String)
  | listed

/-- the products to follow now -/
def Pairs.resolve (p : Pairs) (d : Directory) (c : Client) (now : Nat) :
    StateM Exchange (Except Fault (List String) × Directory) :=
  match p with
  | .named ids => return (.ok ids, d)
  | .listed => do
    let (r, d) ← d.markets c now
    return (r.map fun ms => ms.map Market.productId, d)

end MarketFeed
