import MarketFeed.Text.Digit
import MarketFeed.Toml.Basic
import MarketFeed.Toml.Token

/-!
# Dates in TOML texts

A date, a time of day, or both, the latter perhaps with an offset. They are checked field by field
and kept as text.

## Main definitions

* `Toml.readDate`: the date that begins with a word
* `Toml.dateText?`: a date or time in its usual form
-/

namespace MarketFeed.Toml

open Text

/-- The text of a token that may belong to a date. -/
def Token.dateText? : Token → Option String
  | .word w => some w
  | .colon => some ":"
  | .period => some "."
  | .plus => some "+"
  | _ => none

/-- A number of some digits at the front of a text. -/
def fixedNumber (width : Nat) (cs : List Char) : Option (Nat × List Char) :=
  let ds := cs.take width
  if ds.length = width ∧ ds.all isDigit then some (ofDigits ds, cs.drop width) else none

/-- Takes a character off the front of a text. -/
def takeChar (c : Char) : List Char → Option (List Char)
  | d :: cs => if c = d then some cs else none
  | [] => none

/-- A day at the front of a text: its usual form and the rest. -/
def dayText? (cs : List Char) : Option (List Char × List Char) := do
  let (year, cs) ← fixedNumber 4 cs
  let (month, cs) ← fixedNumber 2 (← takeChar '-' cs)
  let (day, cs) ← fixedNumber 2 (← takeChar '-' cs)
  if 1 ≤ month ∧ month ≤ 12 ∧ 1 ≤ day ∧ day ≤ 31 then
    some (padded 4 year ++ '-' :: padded 2 month ++ '-' :: padded 2 day, cs)
  else none

/-- Fractions of a second at the front of a text. Nine places count. -/
def fractionText? : List Char → Option (List Char × List Char)
  | '.' :: cs =>
    let (ds, rest) := spanDigits cs
    if ds = [] then none
    else
      let kept := ((ds.take 9).reverse.dropWhile (· == '0')).reverse
      some (if kept = [] then [] else '.' :: kept, rest)
  | cs => some ([], cs)

/-- A time of day at the front of a text: its usual form and the rest. -/
def timeText? (cs : List Char) : Option (List Char × List Char) := do
  let (hour, cs) ← fixedNumber 2 cs
  let (minute, cs) ← fixedNumber 2 (← takeChar ':' cs)
  let (second, cs) ← fixedNumber 2 (← takeChar ':' cs)
  let (fraction, cs) ← fractionText? cs
  if hour ≤ 24 ∧ minute ≤ 59 ∧ second ≤ 59 then
    some (padded 2 hour ++ ':' :: padded 2 minute ++ ':' :: padded 2 second ++ fraction, cs)
  else none

/-- The rest of a text, an offset or nothing. Less than an hour behind is written as ahead. -/
def offsetText? : List Char → Option (List Char)
  | [] => some []
  | ['Z'] | ['z'] => some ['Z']
  | sign :: cs => do
    let (hours, cs) ← fixedNumber 2 cs
    let (minutes, cs) ← fixedNumber 2 (← takeChar ':' cs)
    if (sign = '+' ∨ sign = '-') ∧ cs = [] then
      let sign := if hours = 0 then '+' else sign
      some (sign :: padded 2 hours ++ ':' :: padded 2 minutes)
    else none

/-- A date or time in its usual form. -/
def dateText? (cs : List Char) : Option (List Char) :=
  if cs[2]? = some ':' then do
    let (time, rest) ← timeText? cs
    if rest = [] then some time else none
  else do
    let (day, cs) ← dayText? cs
    match cs with
    | [] => some day
    | c :: cs =>
      if c = 'T' ∨ c = 't' ∨ c = ' ' then do
        let (time, cs) ← timeText? cs
        return day ++ 'T' :: time ++ (← offsetText? cs)
      else none

/-- Takes a word off the front of some tokens, behind the text of a date so far. -/
def takeWord (text : String) : List Token → Option (String × List Token)
  | .word w :: ts => some (text ++ w, ts)
  | _ => none

/-- Takes a mark and a word off the front of some tokens, if the mark is there. -/
def takeMarked (mark : Token) (text : String) : List Token → Option (String × List Token)
  | t :: ts =>
    if t = mark then takeWord (text ++ (t.dateText?.getD "")) ts else some (text, t :: ts)
  | [] => some (text, [])

/-- The minutes, seconds and so on of a time, behind the text of a date so far. -/
def takeTime (text : String) (ts : List Token) : Option (String × List Token) := do
  let (text, ts) ← takeWord (text ++ ":") ts
  let (text, ts) ← match ts with
    | .colon :: ts => takeWord (text ++ ":") ts
    | _ => none
  let (text, ts) ← takeMarked .period text ts
  let (text, ts) ← takeMarked .plus text ts
  takeMarked .colon text ts

/-- The date that begins with a word. A single space may separate a day from its time; `inTime`
tells that the colon behind the word has been taken. -/
def readDate (w : String) (inTime : Bool) (ts : List Token) : Option (Toml × List Token) := do
  let (text, ts) := match ts with
    | .blank " " :: .word hour :: ts => (w ++ (if inTime then ":" else "") ++ " " ++ hour, ts)
    | ts => (w, ts)
  let (text, ts) ←
    if inTime then takeTime text ts
    else match ts with
      | .colon :: ts => takeTime text ts
      | ts => some (text, ts)
  return (.date (String.ofList (← dateText? text.toList)), ts)

end MarketFeed.Toml
