import MarketFeed.Rest.Refresher

/-!
# Rehearsals with the exchange

An exchange that answers from a script: each resource has a list of replies, which are given one
after another, the last one again and again.

## Main definitions

* `Routes`: the replies by resource
* `Exchange.scripted`: the exchange that gives them
* `Refresher.rehearse`: a refresher that is stopped once the consumer has enough
-/

namespace MarketFeed

open Text

/-- The replies of an exchange, by what is asked for. A reply is a status with a body. -/
abbrev Routes := List (String × List (Nat × List Glyph))

/-- A status whose replies have no body. -/
def isBodiless (status : Nat) : Bool := status == 204 || status == 304

/-- The reply to a request for a resource that was asked for so often before. What is not on the
list is not found. -/
def Routes.reply (routes : Routes) (target : String) (before : Nat) : Nat × List Glyph :=
  let replies := (routes.lookup target).getD []
  match replies[before]? <|> replies.getLast? with
  | some (status, body) => (status, if isBodiless status then [] else body)
  | none => (404, [])

namespace Exchange

/-- An exchange at an authority that replies from a script. If it has none nobody is there. -/
def scripted (authority : Option String) (routes : Routes) : Exchange where
  respond log u :=
    if some u.authority = authority then
      let (status, body) := routes.reply u.target (log.countP fun v =>
        v.authority = u.authority ∧ v.target = u.target)
      .reply status body
    else .refused u
  clock _ := ⟨0, 0⟩
  log := []

/-- what an authority has been asked for since the first `before` requests -/
def targetsAt (e : Exchange) (authority : Option String) (before : Nat) : List String :=
  ((e.log.drop before).filter fun u => some u.authority = authority).map Url.target

end Exchange

namespace Refresher

/-- Fetches the books of some products until the consumer has `missing` more. Gives what it got, and
the failure that ended the pass early. -/
def publishUntil (c : Client) (taken : Nat → Bool) :
    (missing : Nat) → List String → StateM Exchange (List Snapshot × Except Fault Unit)
  | 0, _ | _, [] => return ([], .ok ())
  | missing + 1, id :: ids => do
    match ← c.publish taken id with
    | .refused => return ([], .error .consumerGone)
    | .failed _ => publishUntil c taken (missing + 1) ids
    | .sent s => do
      let (sent, r) ← publishUntil c taken missing ids
      return (s :: sent, r)

/-- A refresher that is stopped as soon as the consumer has `missing` books. Nothing stops one that
waits for the next hour, or that could not tell the products in `fuel` attempts: it has no result.
-/
def rehearse (p : Pairs) (c : Client) (taken : Nat → Bool) (missing : Nat) :
    (fuel : Nat) → Directory →
      StateM Exchange (Option (Except Fault Unit × List Snapshot) × Directory)
  | 0, d => return (none, d)
  | fuel + 1, d => do
    if missing = 0 then return (some (.ok (), []), d)
    match ← p.resolve d c 0 with
    | (.error _, d) => rehearse p c taken missing fuel d
    | (.ok ids, d) => do
      let (sent, r) ← publishUntil c taken missing ids
      match r with
      | .error f => return (some (.error f, sent), d)
      | .ok () => return (if missing ≤ sent.length then some (.ok (), sent) else none, d)

/-- As many attempts as a script can make differ. -/
def attemptsFor (routes : Routes) : Nat := routes.foldl (fun n r => n + r.2.length) 2

end Refresher

end MarketFeed
