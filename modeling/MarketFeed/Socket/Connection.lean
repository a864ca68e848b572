import MarketFeed.Socket.Message

/-!
# Connections

Our end of a connection to a peer that sends all it has to say at once and from then on answers
pings, unless it has closed the connection or hung up.

## Main definitions

* `Wire`: what arrives on a connection
* `Connection.toPeer`: a new connection to a peer
* `Connection.receive`, `Connection.send`, `Connection.close`: what our end can do
* `Connection.seen`: what the peer has got from us
-/

namespace MarketFeed

/-- What arrives on a connection. -/
inductive Wire
  | message (m : Message)
  /-- the peer is gone without a closing handshake -/
  | hangUp
  deriving DecidableEq

/-- How much of a connection is left. -/
inductive Link
  | live
  /-- the peer has sent its close -/
  | closedByPeer
  /-- nothing can be read or written any more -/
  | gone
  deriving DecidableEq

/-- Our end of a connection. -/
structure Connection where
  arriving : List Wire
  link : Link
  /-- no further receive gives anything -/
  ended : Bool
  /-- we have not closed it -/
  held : Bool
  /-- the peer answers pings -/
  answered : Bool
  /-- the peer still reads what we send -/
  read : Bool
  /-- what the peer has got from us, the latest first -/
  sent : List Message
  deriving DecidableEq

/-- the last thing a peer sends -/
def Wire.isLast : Wire → Bool
  | .message .close | .hangUp => true
  | .message _ => false

/-- What a peer really sends: nothing after a close or after hanging up. -/
def Wire.untilLast : List Wire → List Wire
  | [] => []
  | w :: ws => if w.isLast then [w] else w :: untilLast ws

/-- the most bytes that a ping or pong can hold -/
def maxControl : Nat := 125

/-- The message is too large for what it is. -/
def Message.tooBig : Message → Bool
  | .ping bs | .pong bs => maxControl < bs.length
  | _ => false

namespace Connection

/-- A new connection to a peer that has something to send. -/
def toPeer (ws : List Wire) : Connection :=
  { arriving := Wire.untilLast ws, link := .live, ended := false, held := true
    answered := !ws.any Wire.isLast, read := !(Wire.untilLast ws).contains .hangUp, sent := [] }

/-- What the next receive gives, if it ever returns. A stream that has ended gives nothing. -/
def next? (c : Connection) : Option (Option (Except SocketFault Message) × Connection) :=
  if c.ended then some (none, c)
  else match c.arriving, c.link with
    | [], .live => none
    | .message m :: arriving, .live =>
      if m.tooBig then
        some (some (.error (.breach .controlTooBig)), { c with arriving, ended := true })
      else if m = .close then some (some (.ok .close), { c with arriving, link := .closedByPeer })
      else some (some (.ok m), { c with arriving })
    | .hangUp :: arriving, .live =>
      some (some (.error (.breach .reset)), { c with arriving, link := .gone, ended := true })
    | .message _ :: arriving, .closedByPeer =>
      some (some (.error (.breach .receivedAfterClosing)), { c with arriving, ended := true })
    | _, _ => some (none, { c with link := .gone, ended := true })

/-- Receives. Without an answer, the call never returns. -/
def receive (c : Connection) : Option (Except Fault Inbound × Connection) :=
  if c.held then c.next?.map fun r => (Inbound.ofReceived r.1, r.2)
  else some (.error .closed, c)

/-- Why nothing can be sent. -/
def sendFault? (c : Connection) : Option Fault :=
  if c.held then
    match c.link with
    | .live => none
    | .closedByPeer => some (SocketFault.breach .sendAfterClosing).toFault
    | .gone => some SocketFault.alreadyClosed.toFault
  else some .closed

/-- Sends a message; the peer answers a ping by a pong. -/
def send (c : Connection) (m : Message) : Except Fault Unit × Connection :=
  match c.sendFault? with
  | some f => (.error f, c)
  | none =>
    let c := if c.read then { c with sent := m :: c.sent } else c
    match m with
    | .ping bs =>
      (.ok (), if c.answered then { c with arriving := c.arriving ++ [.message (.pong bs)] } else c)
    | _ => (.ok (), c)

/-- Closes our end; nothing can be done with it afterwards. -/
def close (c : Connection) : Connection := { c with held := false }

/-- what the peer has got from us, in order -/
def seen (c : Connection) : List Message := c.sent.reverse

end Connection

end MarketFeed
