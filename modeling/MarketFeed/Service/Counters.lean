import MarketFeed.Listener.Status

/-!
# Counters

What the listener and the refresher have done is counted, and shown on a page of text: for each
family of counters its purpose, its type, and a line for each of its members.

## Main definitions

* `Counters`: the counts
* `Counters.ofActs`: what the listener has done
* `Counters.page`: the lines of the page
-/

namespace MarketFeed

/-- the name of a reason to restart -/
def Restart.name : Restart → String
  | .liveness => "liveness"
  | .cooldown => "cooldown"

/-- An act hands a diff of a kind to the consumer. -/
def Act.delivers (kind : String) : Act → Bool
  | .deliver d => d.kind == kind
  | _ => false

/-- The counts of a service. -/
structure Counters where
  /-- diffs that were handed to the consumer, by kind -/
  enqueued : String → Nat
  /-- frames that said nothing about a book -/
  ignored : Nat
  /-- sessions that were followed by another one, by reason -/
  restarts : Restart → Nat
  /-- snapshots that were handed to the consumer -/
  published : Nat
  /-- snapshots that could not be had -/
  failures : Nat

namespace Counters

/-- the counts of what a listener has done -/
def ofActs (acts : List Act) : Counters where
  enqueued kind := acts.countP (Act.delivers kind)
  ignored := acts.count .ignore
  restarts r := acts.count (.restart r)
  published := 0
  failures := 0

/-- the kinds of diffs, in alphabetical order -/
def kinds : List String := ["change", "done", "match", "open"]

/-- the reasons to restart, in alphabetical order -/
def reasons : List Restart := [.cooldown, .liveness]

/-- A line of a member: its family, its label and its count. -/
def memberLine (family label member : String) (count : Nat) : String :=
  s!"{family}\x7b{label}=\"{member}\"\x7d {count}"

/-- The lines of a family. One without members has none. -/
def familyLines (family purpose : String) (members : List String) : List String :=
  if members.isEmpty then []
  else s!"# HELP {family} {purpose}" :: s!"# TYPE {family} counter" :: members

/-- The lines of a family whose members are named by a label. A member appears once it has counted
something. -/
def labelledLines (family purpose label : String) (counts : List (String × Nat)) : List String :=
  familyLines family purpose
    ((counts.filter (0 < ·.2)).map fun m => memberLine family label m.1 m.2)

/-- The lines of a family with one member. -/
def plainLines (family purpose : String) (count : Nat) : List String :=
  familyLines family purpose [s!"{family} {count}"]

/-- The lines of the page, by family. -/
def lines (c : Counters) : List String :=
  labelledLines "cbpro_diffs_enqueued_total" "Diff messages enqueued" "kind"
      (kinds.map fun k => (k, c.enqueued k)) ++
    plainLines "cbpro_frames_ignored_total" "Feed frames dropped without output" c.ignored ++
    labelledLines "cbpro_reconnects_total" "WebSocket session restarts" "reason"
      (reasons.map fun r => (r.name, c.restarts r)) ++
    plainLines "cbpro_snapshot_failures_total" "Periodic snapshot fetch failures" c.failures ++
    plainLines "cbpro_snapshots_published_total" "Periodic snapshots enqueued" c.published

/-- Nothing has been counted. -/
def untouched (c : Counters) : Bool :=
  kinds.all (c.enqueued · == 0) && c.ignored == 0 && reasons.all (c.restarts · == 0) &&
    c.failures == 0 && c.published == 0

/-- The lines of the page. The counters join it when the first of them counts. -/
def page (c : Counters) : List String := if c.untouched then [] else c.lines

end Counters

end MarketFeed
