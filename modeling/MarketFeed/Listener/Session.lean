import MarketFeed.Listener.Status

/-!
# Sessions

A session asks for the products, connects, subscribes and then receives until something ends it; at
last it closes the connection. Silence is met by a probe: a ping, and whatever arrives answers it.

## Main definitions

* `Wait`: what a session in the middle of receiving waits for
* `Stage`: where a session stands
* `Session.step`: what a session does when it is told something
-/

namespace MarketFeed

/-- What a session waits for, and until when. -/
inductive Wait
  | message (deadline : Nat)
  /-- the ping of a probe is being sent -/
  | probe (deadline : Nat)
  /-- the ping is sent, nothing has answered it yet -/
  | answer (deadline : Nat)
  deriving DecidableEq

/-- when a wait runs out -/
def Wait.deadline : Wait → Nat
  | .message d | .probe d | .answer d => d

/-- Where a session stands. -/
inductive Stage
  | resolving
  | connecting (pairs : List String)
  | subscribing
  | receiving (w : Wait)
  | closing (o : Outcome)
  | ended (o : Outcome)
  deriving DecidableEq

/-- A session, with the status it has shown last. -/
structure Session where
  status : Status
  stage : Stage
  deriving DecidableEq

namespace Session

/-- the beginning of a session -/
def start : Session × List Act :=
  (⟨.connecting, .resolving⟩, [.publish .connecting, .call .resolve])

/-- Nothing happens. -/
def stay (s : Session) : Session × List Act := (s, [])

/-- A session without a connection ends. -/
def abandon (s : Session) : Session × List Act :=
  ({ s with stage := .ended .reconnectAfterCooldown }, [])

/-- The connection is closed, and then the session ends. -/
def close (s : Session) (o : Outcome) : Session × List Act :=
  ({ s with stage := .closing o }, [.call .close])

/-- A failure on the connection ends the session. -/
def fail (s : Session) (f : Fault) : Session × List Act := s.close (.ofFault f)

/-- The next message is awaited. -/
def listen (timing : Timing) (now : Nat) (s : Session) : Session × List Act :=
  ({ s with stage := .receiving (.message (now + timing.message)) }, [.call .receive])

/-- Shows a status and goes on. -/
def enter (status : Status) (s : Session) (next : Session → Session × List Act) :
    Session × List Act :=
  let (s, acts) := next { s with status }
  (s, .publish status :: acts)

/-- What follows on an act. -/
def after (act : Act) (r : Session × List Act) : Session × List Act := (r.1, act :: r.2)

/-- A frame is delivered, dropped, or ends the session. -/
def onText (timing : Timing) (consumer : Bool) (now : Nat) (raw : String) (s : Session) :
    Session × List Act :=
  match (Frame.parse raw).bind Frame.diff? with
  | .error f => s.fail f
  | .ok none => after .ignore (s.listen timing now)
  | .ok (some d) =>
    if consumer then after (.deliver d) (s.listen timing now) else s.close .terminate

/-- Whatever arrives, be it in time or in answer to a probe. -/
def onReceived (timing : Timing) (consumer : Bool) (now : Nat) (s : Session) :
    Except Fault Inbound → Session × List Act
  | .ok (.text raw) => s.enter .receiving (onText timing consumer now raw)
  | .ok .control => s.listen timing now
  | .ok .closed => s.close .reconnectNow
  | .error f => s.fail f

/-- A wait has run out: the peer is probed, or it did not answer the probe. -/
def onExpired (timing : Timing) (now : Nat) (s : Session) : Wait → Session × List Act
  | .message _ => ({ s with stage := .receiving (.probe (now + timing.ping)) }, [.call .ping])
  | .probe _ | .answer _ => s.fail .timeout

/-- What a session does when it is told something; `consumer` says whether its diffs are taken.
What it did not ask for changes nothing. -/
def step (timing : Timing) (consumer : Bool) (now : Nat) (s : Session) (signal : Signal) :
    Session × List Act :=
  match s.stage, signal with
  | .resolving, .resolved (.ok pairs) => ({ s with stage := .connecting pairs }, [.call .connect])
  | .resolving, .resolved (.error _) => s.abandon
  | .connecting pairs, .connected (.ok _) =>
    ({ s with stage := .subscribing }, [.call (.send (subscribeText pairs))])
  | .connecting _, .connected (.error _) => s.abandon
  | .subscribing, .sent (.ok _) => s.enter .subscribed (listen timing now)
  | .subscribing, .sent (.error f) => s.fail f
  | .receiving (.message _), .received r => s.onReceived timing consumer now r
  | .receiving (.answer _), .received r => s.onReceived timing consumer now r
  | .receiving (.probe d), .pinged (.ok _) =>
    ({ s with stage := .receiving (.answer d) }, [.call .receive])
  | .receiving (.probe _), .pinged (.error f) => s.fail f
  | .receiving w, .tick => if w.deadline ≤ now then s.onExpired timing now w else s.stay
  | .closing o, .closed => ({ s with stage := .ended o } : Session).enter .disconnected stay
  | _, _ => s.stay

/-- when a session wants to be told the time -/
def deadline? (s : Session) : Option Nat :=
  match s.stage with
  | .receiving w => some w.deadline
  | _ => none

/-- how a session ended, if it has -/
def outcome? (s : Session) : Option Outcome :=
  match s.stage with
  | .ended o => some o
  | _ => none

end Session

end MarketFeed
