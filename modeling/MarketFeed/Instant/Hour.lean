import MarketFeed.Instant.Calendar

/-!
# Waiting for the next hour

## Main definitions

* `Instant.truncateHour?`: the start of the hour, where nanoseconds since 1970 fit 64 bits
* `Instant.untilNextHour`: nanoseconds left until the next full hour
-/

namespace MarketFeed.Instant

/-- nanoseconds in an hour -/
def hourNanos : Int := secondsPerHour * nanosPerSecond

/-- The start of the hour an instant lies in, for instants whose nanoseconds since 1970 fit a
signed number of 64 bits. -/
def truncateHour? (t : Instant) : Option Instant :=
  if -Int.pow 2 63 ≤ t.totalNanos ∧ t.totalNanos < Int.pow 2 63 then
    some (t.shift (-(t.totalNanos % hourNanos)))
  else none

/-- The nanoseconds left until the next full hour, or a whole hour where the start of the hour is
not known. There is no answer for an instant whose next hour cannot be represented. -/
def untilNextHour (t : Instant) : Option Nat :=
  let next := ((truncateHour? t).getD t).shift hourNanos
  if next.InRange then some (next.since t).toNat else none

end MarketFeed.Instant
