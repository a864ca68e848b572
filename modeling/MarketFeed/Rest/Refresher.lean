import MarketFeed.Rest.Directory

/-!
# Refreshing the books

Diffs may be missed. So the books of all products that are followed are fetched anew in a pass at
the start and in one at every full hour, and handed to the consumer.

## Main definitions

* `Client.publish`: fetches a book and hands it on
* `Client.pass`: does so for some products
* `Pairs.pass`: a pass over the products that are followed
* `Refresher.run`: one pass after another
-/

namespace MarketFeed

/-- What comes of fetching a book for the consumer. -/
inductive Publication
  | sent (s : Snapshot)
  | failed (f : Fault)
  /-- nobody takes it any more -/
  | refused

/-- What a pass has done. -/
structure Pass where
  /-- what the consumer got -/
  sent : List Snapshot
  /-- how many books were counted as published -/
  published : Nat
  /-- how many books could not be had -/
  failures : Nat
  result : Except Fault Unit

namespace Client

/-- Fetches the book of a product and hands it to the consumer, who is there as long as `taken`
holds of the number of requests so far. -/
def publish (c : Client) (taken : Nat → Bool) (id : String) : StateM Exchange Publication := do
  match ← (c.snapshot id).run with
  | .error f => return .failed f
  | .ok s => return if taken (← get).log.length then .sent s else .refused

/-- Fetches the books of some products. A book that cannot be had is left out; the pass ends when
nobody takes a book. -/
def pass (c : Client) (taken : Nat → Bool) : List String → StateM Exchange Pass
  | [] => return ⟨[], 0, 0, .ok ()⟩
  | id :: ids => do
    match ← c.publish taken id with
    | .refused => return ⟨[], 0, 0, .error .consumerGone⟩
    | .failed _ =>
      let p ← c.pass taken ids
      return { p with failures := p.failures + 1 }
    | .sent s =>
      let p ← c.pass taken ids
      return { p with sent := s :: p.sent, published := p.published + 1 }

end Client

/-- A pass over the products that are followed. -/
def Pairs.pass (p : Pairs) (d : Directory) (c : Client) (now : Nat) (taken : Nat → Bool) :
    StateM Exchange (Pass × Directory) := do
  match ← p.resolve d c now with
  | (.error f, d) => return (⟨[], 0, 0, .error f⟩, d)
  | (.ok ids, d) => return (← c.pass taken ids, d)

namespace Refresher

/-- What follows a pass. -/
inductive Next
  /-- another pass at the next full hour -/
  | hour
  /-- another pass after a short while -/
  | retry
  | stop (f : Fault)
  deriving DecidableEq

/-- After a pass comes another one, sooner if it failed, unless nobody takes the books. -/
def next : Except Fault Unit → Next
  | .ok () => .hour
  | .error .consumerGone => .stop .consumerGone
  | .error _ => .retry

/-- Up to `n` passes, one after another, as the refresher makes them until it stops, and the failure
with which it stops. The pass with number `i` is made at the time `now i`. -/
def run (p : Pairs) (c : Client) (now : Nat → Nat) (taken : Nat → Bool) :
    (n i : Nat) → Directory → StateM Exchange ((List Pass × Option Fault) × Directory)
  | 0, _, d => return (([], none), d)
  | n + 1, i, d => do
    let (pass, d) ← p.pass d c (now i) taken
    match next pass.result with
    | .stop f => return (([pass], some f), d)
    | .hour | .retry => do
      let ((passes, stopped), d) ← run p c now taken n (i + 1) d
      return ((pass :: passes, stopped), d)

end Refresher

end MarketFeed
