import MarketFeed.Fault

/-!
# A cache with one refresh in flight

The cache holds one value for a while. A caller that finds none starts a refresh, or attaches to
the one in flight; whoever of those attached comes back first stores what it gave. A failure is
handed to all who are attached and stored by none.

## Main definitions

* `SingleFlight`: the cache, with its refreshes and callers
* `CacheEvent`: what can happen
* `SingleFlight.step`: what the cache makes of it
-/

namespace MarketFeed

/-- Where a caller stands. -/
inductive CallerPhase (α : Type)
  /-- it has not called yet -/
  | away
  /-- it is attached to a refresh -/
  | attached (refresh : Nat)
  | returned (r : Except Fault α)
  | dropped

/-- What can happen to a cache. -/
inductive CacheEvent (α : Type)
  | call (caller : Nat)
  /-- a refresh comes to its end -/
  | finish (refresh : Nat) (r : Except Fault α)
  /-- a caller takes note of the end of its refresh -/
  | resume (caller : Nat)
  /-- a caller is given up -/
  | drop (caller : Nat)

/-- The cache, with its refreshes and callers. Refreshes are numbered as they start. -/
structure SingleFlight (α : Type) where
  /-- how long a value stays fresh -/
  ttl : Nat
  /-- a value, and when it stops being fresh -/
  stored : Option (α × Nat)
  /-- the refresh to which callers attach -/
  inFlight : Option Nat
  /-- how many refreshes have started -/
  started : Nat
  /-- what the refreshes gave that have ended -/
  result : Nat → Option (Except Fault α)
  phase : Nat → CallerPhase α

namespace SingleFlight

variable {α : Type}

/-- a cache that has not been used -/
def new (ttl : Nat) : SingleFlight α := ⟨ttl, none, none, 0, fun _ => none, fun _ => .away⟩

/-- the stored value, while it is fresh -/
def fresh? (s : SingleFlight α) (now : Nat) : Option α :=
  match s.stored with
  | some (a, expiry) => if now < expiry then some a else none
  | none => none

/-- Moves a caller on. -/
def setPhase (s : SingleFlight α) (caller : Nat) (p : CallerPhase α) : SingleFlight α :=
  { s with phase := fun c => if c = caller then p else s.phase c }

/-- A caller is served from the store, attaches to the refresh in flight, or starts one. -/
def call (s : SingleFlight α) (now caller : Nat) : SingleFlight α :=
  match s.fresh? now with
  | some a => s.setPhase caller (.returned (.ok a))
  | none =>
    match s.inFlight with
    | some r => s.setPhase caller (.attached r)
    | none =>
      { s with inFlight := some s.started, started := s.started + 1 }.setPhase caller
        (.attached s.started)

/-- A refresh that has started comes to its end. -/
def finish (s : SingleFlight α) (refresh : Nat) (r : Except Fault α) : SingleFlight α :=
  if refresh < s.started ∧ (s.result refresh).isNone then
    { s with result := fun n => if n = refresh then some r else s.result n }
  else s

/-- A refresh makes way for the next one, if it is the one in flight; a value it gave is stored. -/
def retire (s : SingleFlight α) (now refresh : Nat) (r : Except Fault α) : SingleFlight α :=
  if s.inFlight = some refresh then
    { s with
      inFlight := none
      stored := match r with
        | .ok a => some (a, now + s.ttl)
        | .error _ => s.stored }
  else s

/-- A caller whose refresh has ended returns what it gave. -/
def resume (s : SingleFlight α) (now caller : Nat) : SingleFlight α :=
  match s.phase caller with
  | .attached refresh =>
    match s.result refresh with
    | some r => (s.retire now refresh r).setPhase caller (.returned r)
    | none => s
  | _ => s

/-- A caller that has not returned yet is given up. -/
def drop (s : SingleFlight α) (caller : Nat) : SingleFlight α :=
  match s.phase caller with
  | .attached _ => s.setPhase caller .dropped
  | _ => s

/-- What the cache makes of an event. A caller calls once. -/
def step (now : Nat) (s : SingleFlight α) : CacheEvent α → SingleFlight α
  | .call caller =>
    match s.phase caller with
    | .away => s.call now caller
    | _ => s
  | .finish refresh r => s.finish refresh r
  | .resume caller => s.resume now caller
  | .drop caller => s.drop caller

/-- The cache after events with their times. -/
def run (s : SingleFlight α) (es : List (Nat × CacheEvent α)) : SingleFlight α :=
  es.foldl (fun s e => s.step e.1 e.2) s

end SingleFlight

end MarketFeed
