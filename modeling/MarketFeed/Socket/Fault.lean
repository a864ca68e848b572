import MarketFeed.Fault

/-!
# Failures of a socket

## Main definitions

* `SocketFault`: what can fail on a connection
* `SocketFault.text`: the wording
* `SocketFault.toFault`: what a failure means for the feed
-/

namespace MarketFeed

/-- A breach of the rules of the connection by one of its ends. -/
inductive Breach
  | sendAfterClosing
  | receivedAfterClosing
  | unmaskedFromClient
  | maskedFromServer
  | fragmentedControl
  | controlTooBig
  | handshakeIncomplete
  /-- the peer went away without a closing handshake -/
  | reset
  | unknownControl (type : Nat)
  /-- any other one, by its wording -/
  | other (reason : String)
  deriving DecidableEq, Repr

/-- A failure of a socket. -/
inductive SocketFault
  | closed
  | alreadyClosed
  /-- the system refused to read or to write -/
  | system (reason : String)
  /-- the secure layer below failed -/
  | secure (reason : String)
  | encoding
  | attack
  | bufferFull
  | tooManyHeaders
  | tooLong (size limit : Nat)
  | noHost
  | unknownScheme
  /-- the address cannot be used for another reason -/
  | address (reason : String)
  /-- the request for a connection was answered with another status -/
  | refused (status : String)
  /-- the request for a connection, or its answer, cannot be formed -/
  | malformed (reason : String)
  | breach (b : Breach)
  deriving DecidableEq, Repr

/-- the wording of a breach -/
def Breach.text : Breach → String
  | .sendAfterClosing => "Sending after closing is not allowed"
  | .receivedAfterClosing => "Remote sent after having closed"
  | .unmaskedFromClient => "Received an unmasked frame from client"
  | .maskedFromServer => "Received a masked frame from server"
  | .fragmentedControl => "Fragmented control frame"
  | .controlTooBig => "Control frame too big (payload must be 125 bytes or less)"
  | .handshakeIncomplete => "Handshake not finished"
  | .reset => "Connection reset without closing handshake"
  | .unknownControl type => s!"Unknown control frame type: {type}"
  | .other reason => reason

namespace SocketFault

/-- the wording of a failure -/
def text : SocketFault → String
  | .closed => "Connection closed normally"
  | .alreadyClosed => "Trying to work with closed connection"
  | .system reason => s!"IO error: {reason}"
  | .secure reason => s!"TLS error: {reason}"
  | .encoding => "UTF-8 encoding error"
  | .attack => "Attack attempt detected"
  | .bufferFull => "Write buffer is full"
  | .tooManyHeaders => "Space limit exceeded: Too many headers"
  | .tooLong size limit => s!"Space limit exceeded: Message too long: {size} > {limit}"
  | .noHost => "URL error: No host name in the URL"
  | .unknownScheme => "URL error: URL scheme not supported"
  | .address reason => s!"URL error: {reason}"
  | .refused status => s!"HTTP error: {status}"
  | .malformed reason => s!"HTTP format error: {reason}"
  | .breach b => s!"WebSocket protocol error: {b.text}"

/-- The connection is gone after a failure like this one. -/
def EndsConnection : SocketFault → Prop
  | .closed | .alreadyClosed | .system _ | .breach .reset => True
  | _ => False

instance (f : SocketFault) : Decidable f.EndsConnection := by
  unfold EndsConnection; split <;> infer_instance

/-- What a failure means for the feed: the connection is gone, or something else is wrong. -/
def toFault (f : SocketFault) : Fault := if f.EndsConnection then .closed else .transport f.text

end SocketFault

end MarketFeed
