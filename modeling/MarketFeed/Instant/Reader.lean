import MarketFeed.Instant.Calendar
import MarketFeed.Text.Blank
import MarketFeed.Text.Digit

/-!
# Reading instants

A relaxed form of RFC 3339: white space may stand before every number and separator and before the
zone, numbers may be shorter than two digits, a signed year may be longer than four, and the
zone may be written in several ways.

## Main definitions

* `Instant.ReadFault`: why a text is no instant
* `Instant.ofChars`, `Instant.ofText`: read an instant
-/

namespace MarketFeed.Instant

open Text

/-- Why a text is no instant. -/
inductive ReadFault
  | premature
  | invalid
  | outOfRange
  | trailing
  | impossible
  deriving DecidableEq, Repr

/-- the wording of a fault -/
def ReadFault.message : ReadFault → String
  | .premature => "premature end of input"
  | .invalid => "input contains invalid characters"
  | .outOfRange => "input is out of range"
  | .trailing => "trailing input"
  | .impossible => "no possible date and time matching input"

/-- a character that must stand next -/
def readMark (mark : Char) : List Char → Except ReadFault (Unit × List Char)
  | [] => .error .premature
  | c :: cs => if c = mark then .ok ((), cs) else .error .invalid

/-- The digits at the start of a text, `width` at most and at least one. -/
def readNumber (width : Nat) (cs : List Char) : Except ReadFault (Nat × List Char) :=
  let ds := (cs.take width).takeWhile isDigit
  match cs with
  | [] => .error .premature
  | _ =>
    if ds = [] then .error .invalid
    else if Nat.pow 2 63 ≤ ofDigits ds then .error .outOfRange
    else .ok (ofDigits ds, cs.drop ds.length)

/-- A number of at most two digits between two bounds, after white space. -/
def readField (low high : Nat) (cs : List Char) : Except ReadFault (Nat × List Char) := do
  let (n, cs) ← readNumber 2 (trimStart cs)
  if low ≤ n ∧ n ≤ high then return (n, cs) else .error .outOfRange

/-- Years are numbers of 32 bits. -/
def checkYear (y : Int) (cs : List Char) : Except ReadFault (Int × List Char) :=
  if -Int.pow 2 31 ≤ y ∧ y < Int.pow 2 31 then .ok (y, cs) else .error .outOfRange

/-- A year: at most four digits, or any number with a sign. -/
def readYear (cs : List Char) : Except ReadFault (Int × List Char) :=
  match trimStart cs with
  | '-' :: cs => do
    let (n, cs) ← readNumber cs.length cs
    checkYear (-(n : Int)) cs
  | '+' :: cs => do
    let (n, cs) ← readNumber cs.length cs
    checkYear n cs
  | cs => do
    let (n, cs) ← readNumber 4 cs
    return ((n : Int), cs)

/-- The fraction of a second in nanoseconds; digits beyond the ninth are dropped. -/
def readFraction : List Char → Except ReadFault (Nat × List Char)
  | '.' :: cs => do
    let (n, rest) ← readNumber 9 cs
    return (n * Nat.pow 10 (9 - (cs.length - rest.length)), rest.dropWhile isDigit)
  | cs => .ok (0, cs)

/-- the mark between date and time -/
def readMiddle : List Char → Except ReadFault (Unit × List Char)
  | [] => .error .premature
  | c :: cs => if c = 'T' ∨ c = 't' ∨ c = ' ' then .ok ((), cs) else .error .invalid

/-- Two digits of a zone, the first at most `5` where `sixty` is set. Shorter than two bytes the
text ends too early. -/
def readPair (sixty : Bool) : List Char → Except ReadFault (Nat × List Char)
  | [] => .error .premature
  | c :: cs =>
    match cs with
    | [] => if c.utf8Size < 2 then .error .premature else .error .invalid
    | d :: cs =>
      if isDigit c ∧ isDigit d then
        if sixty ∧ 6 ≤ digitValue c then .error .outOfRange
        else .ok (10 * digitValue c + digitValue d, cs)
      else .error .invalid

/-- The zone as seconds east of universal time. -/
def readZone (cs : List Char) : Except ReadFault (Int × List Char) :=
  match cs with
  | [] => .error .premature
  | c :: rest =>
    if (cs.take 3).map Char.toUpper = ['U', 'T', 'C'] then .ok (0, cs.drop 3)
    else if c = 'Z' ∨ c = 'z' then .ok (0, rest)
    else if c = '+' ∨ c = '-' ∨ c = '\u2212' then do
      let (h, rest) ← readPair false rest
      let (m, rest) ← readPair true (rest.dropWhile fun c => c = ':' || isBlank c)
      let offset : Int := h * 3600 + m * 60
      return (if c = '+' then offset else -offset, rest)
    else .error .invalid

/-- The fields of a date and time with its zone. -/
structure Fields where
  date : Date
  hour : Nat
  minute : Nat
  second : Nat
  nanos : Nat
  offset : Int

/-- Reads all fields; nothing but white space may follow. -/
def readFields (cs : List Char) : Except ReadFault Fields := do
  let (year, cs) ← readYear cs
  let (_, cs) ← readMark '-' (trimStart cs)
  let (month, cs) ← readField 1 12 cs
  let (_, cs) ← readMark '-' (trimStart cs)
  let (day, cs) ← readField 1 31 cs
  let (_, cs) ← readMiddle cs
  let (hour, cs) ← readField 0 23 cs
  let (_, cs) ← readMark ':' (trimStart cs)
  let (minute, cs) ← readField 0 59 cs
  let (_, cs) ← readMark ':' (trimStart cs)
  let (second, cs) ← readField 0 60 cs
  let (nanos, cs) ← readFraction cs
  let (offset, cs) ← readZone (trimStart cs)
  if trimStart cs = [] then
    return ⟨⟨year, month, day⟩, hour, minute, second, nanos, offset⟩
  else .error .trailing

/-- The instant with given fields: the day must exist, the zone must be less than a day from
universal time, and the instant must be representable there. -/
def ofFields (f : Fields) : Except ReadFault Instant :=
  if ¬ f.date.Valid ∨ f.date.year < firstYear ∨ lastYear < f.date.year then .error .outOfRange
  else if f.offset ≤ -secondsPerDay ∨ secondsPerDay ≤ f.offset then .error .outOfRange
  else
    let s := Nat.min f.second 59
    let seconds := (f.date.dayNumber - Date.epoch) * secondsPerDay +
      (f.hour * 3600 + f.minute * 60 + s : Nat) - f.offset
    let t : Instant := ⟨seconds, f.nanos + (f.second - s) * nanosPerSecond⟩
    if t.InRange then .ok t else .error .impossible

/-- Reads an instant. -/
def ofChars (cs : List Char) : Except ReadFault Instant := do ofFields (← readFields cs)

/-- reads an instant from a text -/
def ofText (s : String) : Except ReadFault Instant := ofChars s.toList

end MarketFeed.Instant
