import MarketFeed.Fault
import MarketFeed.Instant.Basic
import MarketFeed.Rest.Url
import MarketFeed.Text.Glyph

/-!
# Requests to the exchange

The exchange answers one request after another. What it answers may depend on all that was asked
before, so that every course of answers is the answer of some exchange.

## Main definitions

* `Response`: what comes of a request
* `Exchange`: who answers, and what was asked so far
* `Requests`: computations that send requests and may fail
* `Exchange.get`: sends one

## Main results

* `run_get`, `run_get_of_error`: a request is sent exactly once, and not at all to a text that is no
  address
-/

namespace MarketFeed

open Text

/-- What comes of a request: a status with a body, or nothing, for a reason that the client is
told. -/
inductive Response
  | reply (status : Nat) (body : List Glyph)
  | lost (reason : String)

/-- The exchange as its clients see it. -/
structure Exchange where
  /-- the response to a request, by the requests before it -/
  respond : List Url → Url → Response
  /-- the time when so many requests have been answered -/
  clock : Nat → Instant
  /-- the requests so far, the first one first -/
  log : List Url

/-- Computations that send requests, one after another, and may fail. A failure keeps the requests
that were sent. -/
abbrev Requests (α : Type) := ExceptT Fault (StateM Exchange) α

/-- A status that stands for success. -/
def isSuccess (status : Nat) : Bool := 200 ≤ status && status < 300

/-- the status of a request that came too soon after others -/
def tooManyRequests : Nat := 429

/-- Sends a request and notes it. -/
def Exchange.send (u : Url) : StateM Exchange Response := fun e =>
  (e.respond e.log u, { e with log := e.log ++ [u] })

/-- the time now -/
def Exchange.now (e : Exchange) : Instant := e.clock e.log.length

/-- the response to a request that nobody takes -/
def Response.refused (u : Url) : Response :=
  .lost (s!"error sending request for url ({u.text}): error trying to connect: " ++
    "tcp connect error: Connection refused (os error 111)")

/-- what a client makes of a response -/
def Response.toExcept : Response → Except Fault (Nat × List Glyph)
  | .reply status body => .ok (status, body)
  | .lost reason => .error (.rest reason)

/-- Requests what an address names: the status and the body. -/
def Exchange.get (address : String) : Requests (Nat × List Glyph) :=
  match Url.ofText address with
  | .error f => throw (.rest f.message)
  | .ok u => ExceptT.mk do return (← Exchange.send u).toExcept

theorem run_get {address : String} {u : Url} (h : Url.ofText address = .ok u) (e : Exchange) :
    (Exchange.get address).run.run e =
      ((e.respond e.log u).toExcept, { e with log := e.log ++ [u] }) := by
  unfold Exchange.get
  rw [h]
  rfl

theorem run_get_of_error {address : String} {f : UrlFault} (h : Url.ofText address = .error f)
    (e : Exchange) : (Exchange.get address).run.run e = (.error (.rest f.message), e) := by
  unfold Exchange.get
  rw [h]
  rfl

end MarketFeed
