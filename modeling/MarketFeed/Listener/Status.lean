import MarketFeed.Feed.Diff
import MarketFeed.Feed.Frame
import MarketFeed.Feed.Subscribe
import MarketFeed.Socket.Message

/-!
# What the listener does and what it is told

The listener keeps a session with the exchange going. It makes calls on a connection, and is told
how they went; time is told to it too, it reads no clock.

## Main definitions

* `Status`: where the listener stands, as others see it
* `Outcome`: how a session ended
* `Timing`: how long it waits
* `Call`: what it asks of the connection
* `Act`: what it does
* `Signal`: what it is told
-/

namespace MarketFeed

/-- Where the listener stands, as others see it. -/
inductive Status
  | disconnected
  | connecting
  | subscribed
  | receiving
  | reconnectWait
  deriving DecidableEq, Repr

/-- the name of a status -/
def Status.name : Status → String
  | .disconnected => "Disconnected"
  | .connecting => "Connecting"
  | .subscribed => "Subscribed"
  | .receiving => "Receiving"
  | .reconnectWait => "ReconnectWait"

/-- How a session ended. -/
inductive Outcome
  /-- the peer is gone or silent -/
  | reconnectNow
  /-- something else failed -/
  | reconnectAfterCooldown
  /-- nobody takes the diffs any more -/
  | terminate
  deriving DecidableEq, Repr

namespace Outcome

/-- the name of an outcome -/
def name : Outcome → String
  | .reconnectNow => "ReconnectNow"
  | .reconnectAfterCooldown => "ReconnectAfterCooldown"
  | .terminate => "Terminate"

/-- The outcome of a session that a failure ends. -/
def ofFault (f : Fault) : Outcome :=
  if f.IsLiveness then .reconnectNow else .reconnectAfterCooldown

end Outcome

/-- How long the listener waits, in milliseconds. -/
structure Timing where
  /-- for a message, before the peer is probed -/
  message : Nat
  /-- for the answer to a probe, the sending of it included -/
  ping : Nat
  /-- after a failure, before the next session -/
  cooldown : Nat
  deriving DecidableEq

/-- What the listener asks of its surroundings. -/
inductive Call
  /-- the products to subscribe to -/
  | resolve
  | connect
  | send (text : String)
  | receive
  | ping
  | close
  deriving DecidableEq

/-- Why a session is followed by another one. -/
inductive Restart
  | liveness
  | cooldown
  deriving DecidableEq

/-- What the listener does. -/
inductive Act
  /-- shows where it stands -/
  | publish (s : Status)
  | call (c : Call)
  /-- hands a diff to the consumer -/
  | deliver (d : Diff)
  /-- drops a frame that says nothing about a book -/
  | ignore
  | restart (r : Restart)
  deriving DecidableEq

/-- What the listener is told: how its call went, that time has passed, or that it is to stop. -/
inductive Signal
  | resolved (r : Except Fault (List String))
  | connected (r : Except Fault Unit)
  | sent (r : Except Fault Unit)
  | received (r : Except Fault Inbound)
  | pinged (r : Except Fault Unit)
  | closed
  | tick
  | cancelled

end MarketFeed
