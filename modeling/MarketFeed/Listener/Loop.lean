import MarketFeed.Listener.Session

/-!
# The listener

One session follows another: at once after a loss of the peer, after a pause when something else
failed. Only a consumer that has gone, or a cancellation, ends it.

## Main definitions

* `Listener`: where the listener stands
* `Listener.step`: what it does when it is told something
* `Listener.status`: what it shows
-/

namespace MarketFeed

/-- Where the listener stands. -/
inductive Listener
  /-- not yet begun -/
  | idle
  | session (s : Session)
  /-- between sessions, until the deadline -/
  | cooling (deadline : Nat)
  | stopped (r : Except Fault Unit)

namespace Listener

/-- the status a listener shows -/
def status : Listener → Status
  | .idle | .stopped _ => .disconnected
  | .session s => s.status
  | .cooling _ => .reconnectWait

/-- A new session begins. -/
def begin : Listener × List Act := (.session Session.start.1, Session.start.2)

/-- What follows on a session's outcome. -/
def next (timing : Timing) (now : Nat) : Outcome → Listener × List Act
  | .reconnectNow => (begin.1, .restart .liveness :: begin.2)
  | .reconnectAfterCooldown =>
    (.cooling (now + timing.cooldown), [.restart .cooldown, .publish .reconnectWait])
  | .terminate => (.stopped (.error .consumerGone), [.publish .disconnected])

/-- A session goes on, or is followed by what its outcome asks for. -/
def settle (timing : Timing) (now : Nat) (r : Session × List Act) : Listener × List Act :=
  match r.1.outcome? with
  | none => (.session r.1, r.2)
  | some o => ((next timing now o).1, r.2 ++ (next timing now o).2)

/-- What the listener does when it is told something. A cancellation drops the session as it
stands. -/
def step (timing : Timing) (consumer : Bool) (now : Nat) : Listener → Signal → Listener × List Act
  | .stopped r, _ => (.stopped r, [])
  | _, .cancelled => (.stopped (.ok ()), [.publish .disconnected])
  | .idle, .tick => begin
  | .cooling d, .tick => if d ≤ now then begin else (.cooling d, [])
  | .session s, signal => settle timing now (s.step timing consumer now signal)
  | l, _ => (l, [])

/-- when the listener wants to be told the time -/
def deadline? : Listener → Option Nat
  | .idle => some 0
  | .session s => s.deadline?
  | .cooling d => some d
  | .stopped _ => none

end Listener

end MarketFeed
