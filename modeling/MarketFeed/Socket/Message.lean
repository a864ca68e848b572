import MarketFeed.Socket.Fault
import MarketFeed.Text.Utf8

/-!
# Messages of a socket

## Main definitions

* `Message`: what a connection can carry
* `Inbound`: what the feed makes of a message
* `Inbound.ofReceived`: the same for whatever a receive gives
-/

namespace MarketFeed

/-- A message of a connection. -/
inductive Message
  | text (s : String)
  | binary (bytes : List UInt8)
  | ping (bytes : List UInt8)
  | pong (bytes : List UInt8)
  | close
  deriving DecidableEq

/-- What the feed makes of a message. -/
inductive Inbound
  | text (s : String)
  /-- a sign of life without content -/
  | control
  | closed
  deriving DecidableEq

namespace Inbound

/-- A binary message counts as the text of its bytes. -/
def ofMessage : Message → Except Fault Inbound
  | .text s => .ok (.text s)
  | .binary bs => match Text.decodeBytes bs with
    | .ok cs => .ok (.text (String.ofList cs))
    | .error e => .error (.unreadable s!"binary frame is not UTF-8: {e.message}")
  | .ping _ | .pong _ => .ok .control
  | .close => .ok .closed

/-- What a receive gives: nothing means that the stream has ended. A failure that ends the
connection is no different from a close. -/
def ofReceived : Option (Except SocketFault Message) → Except Fault Inbound
  | none => .ok .closed
  | some (.ok m) => ofMessage m
  | some (.error f) => if f.EndsConnection then .ok .closed else .error f.toFault

end Inbound

end MarketFeed
