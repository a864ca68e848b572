import MarketFeed.Json.Draft
import MarketFeed.Rest.Rehearsal
import MarketFeed.Text.Hex
import MarketFeed.Text.Utf8

/-!
# Recordings

A recording holds what an exchange replied and what its feed sent, as a JSON object: under `routes`
the replies by what was asked for, each with a `status` and a `body`, or the bytes of the body in
`hex`; under `feed` the frames, or nothing if nobody served the feed.

## Main definitions

* `Recording`: the replies and the frames
* `Recording.ofJson?`: reads one
-/

namespace MarketFeed

open Text

/-- What an exchange replied and what its feed sent. -/
structure Recording where
  routes : Routes
  feed : Option (List String)

namespace Recording

/-- The body of a reply, as a text or by its bytes. Without either it is empty. -/
def body? (reply : Json) : Option (List Glyph) :=
  match reply.member? "hex" with
  | some (.string digits) => (bytesOfHex? digits.toList).map glyphsOfBytes
  | _ =>
    match reply.member? "body" with
    | some (.string s) => some (glyphs s)
    | none | some .null => some []
    | some _ => none

/-- the status and the body of a reply -/
def reply? (reply : Json) : Option (Nat × List Glyph) := do
  match reply.member? "status" with
  | some (.integer (.ofNat status)) => return (status, ← body? reply)
  | _ => none

/-- the replies by what is asked for -/
def routes? : Json → Option Routes
  | .object routes => routes.mapM fun r =>
    match r.2 with
    | .array replies => (replies.mapM reply?).map (r.1, ·)
    | _ => none
  | _ => none

/-- the frames of a feed, if anybody serves it -/
def feed? : Json → Option (Option (List String))
  | .null => some none
  | .array frames => (frames.mapM Json.string?).map some
  | _ => none

/-- the recording that a JSON value is -/
def ofJson? (j : Json) : Option Recording := do
  let routes ← routes? ((j.member? "routes").getD (.object []))
  let feed ← feed? ((j.member? "feed").getD .null)
  return ⟨routes, feed⟩

end Recording

end MarketFeed
