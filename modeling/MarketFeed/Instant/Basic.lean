/-!
# Instants

A point of coordinated universal time with nanoseconds. A leap second is the second before it with
a fraction of one second or more, so the seconds since 1970 skip it.

## Main definitions

* `Instant`: seconds since 1970 and nanoseconds
* `Instant.shift t d`: the instant `d` nanoseconds after `t`
* `Instant.since t u`: the nanoseconds from `u` to `t`
-/

namespace MarketFeed

/-- nanoseconds in a second -/
def nanosPerSecond : Nat := 1000000000

/-- seconds in a day -/
def secondsPerDay : Nat := 86400

/-- seconds in an hour -/
def secondsPerHour : Nat := 3600

/-- A point of time: whole seconds since the start of 1970, and nanoseconds, which reach beyond a
second only inside a leap second. -/
structure Instant where
  seconds : Int
  nanos : Nat
  deriving DecidableEq, Repr, Inhabited

namespace Instant

/-- The instant lies inside a leap second. -/
def InLeapSecond (t : Instant) : Prop := nanosPerSecond ≤ t.nanos

instance (t : Instant) : Decidable t.InLeapSecond := inferInstanceAs (Decidable (_ ≤ _))

/-- nanoseconds since the start of 1970; a leap second runs on into the second after it -/
def totalNanos (t : Instant) : Int := t.seconds * nanosPerSecond + t.nanos

/-- the instant a number of nanoseconds after the start of 1970, outside leap seconds -/
def ofNanos (n : Int) : Instant := ⟨n / nanosPerSecond, (n % nanosPerSecond).toNat⟩

/-- the second of the day -/
def secondOfDay (t : Instant) : Int := t.seconds % secondsPerDay

/-- The instant `d` nanoseconds after `t`. A shift that stays in a leap second moves the fraction;
one that leaves it forward starts from the second before, one that leaves it backward from the
second after. -/
def shift (t : Instant) (d : Int) : Instant :=
  let s := d.tdiv nanosPerSecond
  let f := d.tmod nanosPerSecond
  if t.InLeapSecond then
    if 0 < s ∨ (0 < f ∧ 2 * nanosPerSecond ≤ t.nanos + f) then
      ofNanos (t.totalNanos - nanosPerSecond + d)
    else if s < 0 then ofNanos (t.totalNanos + d)
    else ⟨t.seconds, (t.nanos + f).toNat⟩
  else ofNanos (t.totalNanos + d)

/-- The nanoseconds from `u` to `t`. Where the time of day of one is past a leap second of the
other, that second counts. -/
def since (t u : Instant) : Int :=
  let leap : Int :=
    if u.secondOfDay < t.secondOfDay ∧ u.InLeapSecond then 1
    else if t.secondOfDay < u.secondOfDay ∧ t.InLeapSecond then -1
    else 0
  t.totalNanos - u.totalNanos + leap * nanosPerSecond

end Instant

end MarketFeed
