import MarketFeed.Listener.Loop

/-!
# Rehearsals

The listener against peers that follow scripts, on a clock that jumps from one event to the next.
When an answer and the end of a wait fall on the same millisecond, the answer comes first; a
cancellation comes before both.

## Main definitions

* `Script`: what a peer does
* `Scene`: a rehearsal in progress
* `Scene.reply?`: the answer to the call that is pending, and when it comes
* `Listener.rehearse`: the listener until it stops
* `Session.rehearse`: one session after another, without pauses
* `callsOf`: the calls of a rehearsal, with the status shown during each
-/

namespace MarketFeed

/-- Something that arrives `wait` milliseconds after what arrived before it. -/
structure Arrival where
  wait : Nat
  content : Except Fault Inbound

/-- How a call goes: it takes a while and then succeeds or fails. -/
structure Course where
  delay : Nat
  fault : Option Fault

/-- the result of a call -/
def Course.result (c : Course) : Except Fault Unit :=
  match c.fault with
  | none => .ok ()
  | some f => .error f

/-- What a peer does. -/
structure Script where
  connect : Course
  send : Course
  /-- nothing if a ping never returns -/
  ping : Option Course
  arrivals : List Arrival

/-- a peer that does nothing -/
def Script.silent : Script := ⟨⟨0, none⟩, ⟨0, none⟩, none, []⟩

/-- A rehearsal in progress. -/
structure Scene where
  now : Nat
  /-- the products to subscribe to, if they can be found out -/
  pairs : Except Fault (List String)
  /-- the peers of the connections to come -/
  coming : List Script
  /-- the peer of the connection, without what has arrived -/
  peer : Script
  /-- when something arrived last, or the connection was made -/
  last : Nat
  /-- the call that is not answered yet, and when it was made -/
  pending : Option (Nat × Call)
  /-- what has been done, the latest first -/
  log : List (Nat × Act)

namespace Scene

/-- the scene before anything happens -/
def opening (pairs : Except Fault (List String)) (scripts : List Script) : Scene :=
  ⟨0, pairs, scripts, .silent, 0, none, []⟩

/-- Takes acts down; a call among them is then pending. -/
def perform (s : Scene) : List Act → Scene
  | [] => s
  | a :: as =>
    let s := { s with log := (s.now, a) :: s.log }
    match a with
    | .call c => perform { s with pending := some (s.now, c) } as
    | _ => perform s as

/-- The answer to the pending call: when it comes, what it is, and the scene behind it. A receive
that is given up loses nothing, so an arrival is due no matter when it is asked for. -/
def reply? (s : Scene) : Option (Nat × Signal × Scene) := do
  let (since, call) ← s.pending
  let answered := { s with pending := none }
  match call with
  | .resolve => some (since, .resolved s.pairs, answered)
  | .connect =>
    match s.coming with
    | [] => none
    | script :: coming =>
      let time := since + script.connect.delay
      some (time, .connected script.connect.result,
        { answered with coming, peer := script, last := time })
  | .send _ => some (since, .sent s.peer.send.result, answered)
  | .receive =>
    match s.peer.arrivals with
    | [] => none
    | a :: arrivals =>
      let time := max since (s.last + a.wait)
      some (time, .received a.content,
        { answered with peer := { s.peer with arrivals }, last := time })
  | .ping => do
    let course ← s.peer.ping
    some (since + course.delay, .pinged course.result, answered)
  | .close => some (since, .closed, answered)

/-- What happens next: an answer, the end of a wait, or a cancellation. -/
def next? (s : Scene) (deadline cancelAt : Option Nat) : Option (Signal × Scene) :=
  let event := match s.reply?, deadline with
    | some (t, signal, s'), some d =>
      if t ≤ d then some (t, signal, s') else some (d, .tick, { s with pending := none })
    | some r, none => some r
    | none, some d => some (d, .tick, { s with pending := none })
    | none, none => none
  match event, cancelAt with
  | some (t, signal, s'), some c =>
    if c ≤ t then some (.cancelled, { s with now := max s.now c })
    else some (signal, { s' with now := max s.now t })
  | some (t, signal, s'), none => some (signal, { s' with now := max s.now t })
  | none, some c => some (.cancelled, { s with now := max s.now c })
  | none, none => none

/-- enough steps for all peers to be played to their end, and for `pauses` pauses -/
def enough (s : Scene) (pauses : Nat) : Nat :=
  s.coming.foldl (fun n script => n + 12 + 6 * script.arrivals.length) (12 + 4 * pauses)

end Scene

/-- the consumer is there until it leaves -/
def present (leaves : Option Nat) (now : Nat) : Bool := leaves.all (now < ·)

/-- Plays the listener until it stops or nothing happens any more. -/
def Listener.play (timing : Timing) (leaves cancelAt : Option Nat) :
    (steps : Nat) → Listener → Scene → Listener × Scene
  | 0, l, s => (l, s)
  | n + 1, l, s =>
    match l with
    | .stopped r => (.stopped r, s)
    | l => match s.next? l.deadline? cancelAt with
      | none => (l, s)
      | some (signal, s) =>
        let (l, acts) := l.step timing (present leaves s.now) s.now signal
        play timing leaves cancelAt n l (s.perform acts)

/-- The listener from its beginning until it stops. -/
def Listener.rehearse (timing : Timing) (leaves cancelAt : Option Nat) (s : Scene) :
    Listener × Scene :=
  let pauses := cancelAt.getD 0 / max timing.cooldown 1 + 1
  Listener.idle.play timing leaves cancelAt (s.enough pauses) s

/-- Plays a session until it ends or nothing happens any more. -/
def Session.play (timing : Timing) (leaves : Option Nat) :
    (steps : Nat) → Session → Scene → Session × Scene
  | 0, x, s => (x, s)
  | n + 1, x, s =>
    match x.outcome?, s.next? x.deadline? none with
    | none, some (signal, s) =>
      let (x, acts) := x.step timing (present leaves s.now) s.now signal
      play timing leaves n x (s.perform acts)
    | _, _ => (x, s)

/-- A number of sessions, one after another: how and when each ended, and the status left. -/
def Session.rehearse (timing : Timing) (leaves : Option Nat) :
    (count : Nat) → Scene → List (Nat × Outcome × Status) × Scene
  | 0, s => ([], s)
  | n + 1, s =>
    let (x, s) := Session.start.1.play timing leaves (s.enough 0) (s.perform Session.start.2)
    match x.outcome? with
    | none => ([], s)
    | some o =>
      let (rest, final) := rehearse timing leaves n s
      ((s.now, o, x.status) :: rest, final)

/-- The calls of a rehearsal, with the time of each and the status shown then. -/
def callsOf (shown : Status) : List (Nat × Act) → List (Nat × Call × Status)
  | [] => []
  | (_, .publish status) :: as => callsOf status as
  | (t, .call c) :: as => (t, c, shown) :: callsOf shown as
  | _ :: as => callsOf shown as

end MarketFeed
