import MarketFeed.Cache.SingleFlight

/-!
# Callers of a cache on a clock

Callers come at set times, and some give up after a while. A refresh takes its time from when it
starts. If nobody is attached when it is due, the next caller finds it ended.

## Main definitions

* `Visit`: a caller, with the refresh it would start
* `Answer`: what a caller got, and when
* `SingleFlight.rehearse`: the answers to some visits
-/

namespace MarketFeed

variable {α : Type}

/-- A caller, with the refresh that it starts if it has to. -/
structure Visit (α : Type) where
  time : Nat
  /-- how long its refresh takes -/
  takes : Nat
  gives : Except Fault α
  /-- how long it waits before it gives up -/
  patience : Option Nat

/-- What a caller got and when: nothing if it gave up. -/
structure Answer (α : Type) where
  got : Option (Except Fault α)
  /-- it has started the refresh -/
  refreshed : Bool
  time : Nat

/-- A caller that waits. -/
structure Waiting where
  caller : Nat
  refreshed : Bool
  leaves : Option Nat

/-- The refresh in flight: when it is due and what it will give. -/
structure Flight (α : Type) where
  refresh : Nat
  due : Nat
  gives : Except Fault α

/-- A cache with the callers that wait and the answers so far. -/
structure CachePlay (α : Type) where
  cache : SingleFlight α
  flight : Option (Flight α)
  waiting : List Waiting
  answers : List (Nat × Answer α)

namespace CachePlay

/-- A caller has returned, if it has. -/
def note (p : CachePlay α) (now : Nat) (w : Waiting) : CachePlay α :=
  match p.cache.phase w.caller with
  | .returned r => { p with answers := (w.caller, ⟨some r, w.refreshed, now⟩) :: p.answers }
  | .dropped => { p with answers := (w.caller, ⟨none, w.refreshed, now⟩) :: p.answers }
  | _ => { p with waiting := p.waiting ++ [w] }

/-- The refresh in flight ends, and all who wait for it return. -/
def land (p : CachePlay α) (now : Nat) (f : Flight α) : CachePlay α :=
  let resume := fun (p : CachePlay α) (w : Waiting) =>
    { p with cache := p.cache.step now (.resume w.caller) }.note now w
  p.waiting.foldl resume
    { p with cache := p.cache.step now (.finish f.refresh f.gives), flight := none, waiting := [] }

/-- A caller comes. A refresh that is due already ends at once. -/
def arrive (p : CachePlay α) (caller : Nat) (v : Visit α) : CachePlay α :=
  let now := v.time
  let cache := p.cache.step now (.call caller)
  let refreshed := decide (p.cache.started < cache.started)
  let flight := if refreshed then some ⟨p.cache.started, now + v.takes, v.gives⟩ else p.flight
  let p := { p with cache, flight }.note now ⟨caller, refreshed, v.patience.map (now + ·)⟩
  match flight with
  | some f => if f.due ≤ now ∧ p.waiting ≠ [] then p.land now f else p
  | none => p

/-- A caller gives up. -/
def leave (p : CachePlay α) (now : Nat) (w : Waiting) : CachePlay α :=
  { p with
    cache := p.cache.step now (.drop w.caller)
    waiting := p.waiting.filter (·.caller ≠ w.caller) }.note now w

/-- The end of the refresh in flight, while anybody waits for it. -/
def landing? (p : CachePlay α) : Option (Nat × Flight α) :=
  match p.flight with
  | some f => if p.waiting.isEmpty then none else some (f.due, f)
  | none => none

/-- The waiting caller that gives up first, and when. -/
def leaver? (p : CachePlay α) : Option (Nat × Waiting) :=
  p.waiting.foldl (fun best w =>
    match w.leaves, best with
    | some t, some (t', w') => if t < t' then some (t, w) else some (t', w')
    | some t, none => some (t, w)
    | none, best => best) none

/-- Everything up to the time of the next visit: refreshes end and callers give up. -/
def settle (before : Option Nat) : (fuel : Nat) → CachePlay α → CachePlay α
  | 0, p => p
  | n + 1, p =>
    let inTime := fun (t : Nat) => before.all (t ≤ ·)
    match p.landing?, p.leaver? with
    | some (t, f), some (t', w) =>
      if t ≤ t' then if inTime t then settle before n (p.land t f) else p
      else if inTime t' then settle before n (p.leave t' w) else p
    | some (t, f), none => if inTime t then settle before n (p.land t f) else p
    | none, some (t', w) => if inTime t' then settle before n (p.leave t' w) else p
    | none, none => p

/-- The visits, in the order of their times. -/
def visit : List (Nat × Visit α) → CachePlay α → CachePlay α
  | [], p => p.settle none (2 * p.waiting.length + 1)
  | (caller, v) :: vs, p =>
    visit vs ((p.settle (some v.time) (2 * p.waiting.length + 1)).arrive caller v)

end CachePlay

/-- The answers to some visits, in the order of the visits. Visits at one time come in their
order. -/
def SingleFlight.rehearse (ttl : Nat) (visits : List (Visit α)) : List (Option (Answer α)) :=
  let numbered := (List.range visits.length).zip visits
  let ordered := numbered.mergeSort fun a b => a.2.time ≤ b.2.time
  let p := CachePlay.visit ordered ⟨.new ttl, none, [], []⟩
  (List.range visits.length).map fun caller => p.answers.lookup caller

end MarketFeed
