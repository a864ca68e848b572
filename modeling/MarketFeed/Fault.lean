/-!
# Faults

Everything that can go wrong between the exchange and the books.

## Main definitions

* `Fault`: the kinds of failure
* `Fault.text`: the wording
* `Fault.IsLiveness`: failures after which a session is restarted at once
-/

namespace MarketFeed

/-- A failure of the feed, of the exchange's requests or of the settings. -/
inductive Fault
  /-- the socket could not be connected -/
  | connect (reason : String)
  /-- the socket failed in a way that does not end the connection by itself -/
  | transport (reason : String)
  /-- a text is not what it should be -/
  | unreadable (reason : String)
  /-- a frame without a type, or with one that is not known -/
  | protocol (reason : String)
  /-- an error frame of the exchange -/
  | exchange (reason : String)
  /-- a request was answered with a status that is no success -/
  | fetch (what : String) (status : Nat)
  /-- a request failed, or its answer could not be read -/
  | rest (reason : String)
  /-- the settings cannot be used -/
  | settings (reason : String)
  /-- the peer did not answer a probe in time -/
  | timeout
  /-- the connection is closed -/
  | closed
  /-- nobody takes the output any more -/
  | consumerGone
  deriving DecidableEq, Repr

namespace Fault

/-- the wording of a failure -/
def text : Fault → String
  | .connect r => s!"WebSocket connection error: {r}"
  | .transport r => s!"WebSocket message error: {r}"
  | .unreadable r => s!"Failed to parse message: {r}"
  | .protocol r => s!"Protocol error: {r}"
  | .exchange r => s!"Exchange sent error message: {r}"
  | .fetch what status => s!"Error fetching {what}. HTTP status is {status}."
  | .rest r => s!"REST API error: {r}"
  | .settings r => s!"Configuration error: {r}"
  | .timeout => "Connection timeout"
  | .closed => "Connection closed by peer"
  | .consumerGone => "Output channel closed"

/-- The peer is gone or does not answer: a new connection is tried at once. After any other failure
the next attempt waits. -/
def IsLiveness (f : Fault) : Prop := f = .timeout ∨ f = .closed

instance (f : Fault) : Decidable f.IsLiveness := inferInstanceAs (Decidable (_ ∨ _))

end Fault

end MarketFeed
