import MarketFeed.Decimal.Arith
import MarketFeed.Text.Digit

/-!
# Reading decimal numbers

A plain number is a sign, digits, and at most one point; underscores may separate digits once one
was read. A number with more digits than a decimal holds is rounded at the first digit that does
not fit, half away from zero, provided that digit stands after the point. A number may also carry a
power of ten.

## Main definitions

* `Decimal.ReadFault`: why a text is no decimal
* `Decimal.readPlain`: a number without a power of ten
* `Decimal.readPower`: a number with one
* `Decimal.ofChars`, `Decimal.ofText`: any number
-/

namespace MarketFeed.Decimal

open Text

/-- Why a text is no decimal. -/
inductive ReadFault
  | empty
  | noDigits
  | secondPoint
  | leadingUnderscore
  | unknownCharacter
  | tooManyDigits
  | roundedOutOfRange
  | exponent
  | scale (places : Nat)
  | outOfRange
  deriving DecidableEq, Repr

/-- the wording of a fault -/
def ReadFault.message : ReadFault → String
  | .empty => "Invalid decimal: empty"
  | .noDigits => "Invalid decimal: no digits found"
  | .secondPoint => "Invalid decimal: two decimal points"
  | .leadingUnderscore => "Invalid decimal: must start lead with a number"
  | .unknownCharacter => "Invalid decimal: unknown character"
  | .tooManyDigits => "Invalid decimal: overflow from too many digits"
  | .roundedOutOfRange => "Invalid decimal: overflow from mantissa after rounding"
  | .exponent => "Failed to parse"
  | .scale places => s!"Scale exceeds the maximum precision allowed: {places} > 28"
  | .outOfRange => "Number exceeds maximum value that can be represented."

/-- A number with a sign, from a magnitude and its decimal places. -/
def ofMagnitude? (negative : Bool) (m s : Nat) : Option Decimal :=
  ofParts? (if negative then -m else m) s

/-- the fault of a character that cannot stand where digits are read -/
def misplaced : Char → ReadFault
  | '.' => .secondPoint
  | '_' => .leadingUnderscore
  | _ => .unknownCharacter

/-- the fault of a character that cannot stand behind the last digit kept -/
def misplacedTail (c : Char) : ReadFault := if c = '.' then .secondPoint else .unknownCharacter

/-- Behind the last digit kept only digits and underscores may stand. -/
def checkTail : List Char → Except ReadFault Unit
  | [] => .ok ()
  | c :: cs => if isDigit c ∨ c = '_' then checkTail cs else .error (misplacedTail c)

/-- Adds one to a magnitude; a carry out of range costs a decimal place. -/
def roundUp (m s : Nat) : Except ReadFault (Nat × Nat) :=
  if m + 1 < limit then .ok (m + 1, s)
  else if s = 0 then .error .roundedOutOfRange
  else .ok ((m + 5) / 10, s - 1)

/-- Rounds at the first character `c` that is not kept, half away from zero, and checks the
rest. An underscore counts as the digit zero. -/
def roundAt (m s : Nat) (c : Char) (rest : List Char) : Except ReadFault (Nat × Nat) := do
  let d ← if isDigit c then .ok (digitValue c)
    else if c = '_' then .ok 0
    else .error (misplacedTail c)
  let r ← if 5 ≤ d then roundUp m s else .ok (m, s)
  checkTail rest
  return r

/-- An underscore where the number is to be rounded. Before a magnitude below `2 ^ 64 / 10` it
counts as the digit that decides; above, the next digit decides. -/
def roundAtUnderscore (m s : Nat) (rest : List Char) : Except ReadFault (Nat × Nat) :=
  if m < Nat.pow 2 64 / 10 then roundAt m s '_' rest
  else
    match rest.dropWhile (· = '_') with
    | [] => .ok (m, s)
    | c :: cs => roundAt m s c cs

/-- Reads the digits of a number. `long` is set for texts of 18 bytes or more, the only ones that
can hold too many digits; `m` and `s` are the magnitude and the places so far, `point` and
`seen` whether a point and a digit were read. -/
def readDigits (long : Bool) : (m s : Nat) → (point seen : Bool) → List Char →
    Except ReadFault (Nat × Nat)
  | m, s, _, seen, [] => if seen then .ok (m, s) else .error .noDigits
  | m, s, point, seen, c :: cs =>
    if isDigit c then
      if seen ∧ long ∧ ((point ∧ maxScale ≤ s) ∨ limit ≤ 10 * m + digitValue c) then
        if point then roundAt m s c cs else .error .tooManyDigits
      else readDigits long (10 * m + digitValue c) (if point then s + 1 else s) point true cs
    else if c = '.' ∧ ¬ point then readDigits long m s true seen cs
    else if c = '_' ∧ seen then
      if point ∧ maxScale ≤ s then roundAtUnderscore m s cs else readDigits long m s point seen cs
    else .error (misplaced c)

/-- the length of a text in UTF-8 -/
def utf8Length (cs : List Char) : Nat := cs.foldl (fun n c => n + c.utf8Size) 0

/-- Reads a number without a power of ten. -/
def readPlain (cs : List Char) : Except ReadFault Decimal := do
  let long := 18 ≤ utf8Length cs
  let (negative, ds) ←
    match cs with
    | [] => .error .empty
    | '-' :: ds => .ok (true, ds)
    | '+' :: ds => .ok (false, ds)
    | ds => .ok (false, ds)
  let (m, s) ← readDigits long 0 0 false false ds
  match ofMagnitude? negative m s with
  | some a => return a
  | none => .error .tooManyDigits

/-- Divides by a power of ten: more decimal places, rounded half away from zero where they
exceed 28. -/
def lower (a : Decimal) (e : Nat) : Except ReadFault Decimal :=
  if maxScale < e then .error (.scale e)
  else
    let s := a.scale + e
    let p := Nat.pow 10 (s - maxScale)
    let m := a.coefficient.natAbs
    let m := if s ≤ maxScale then m else m / p + (if p ≤ 2 * (m % p) then 1 else 0)
    match ofMagnitude? (a.coefficient < 0) m (Nat.min s maxScale) with
    | some b => .ok b
    | none => .error .outOfRange

/-- `a` without its trailing zeros behind the point -/
def dropTrailingZeros (a : Decimal) : Decimal :=
  go a.scale a
where
  go : Nat → Decimal → Decimal
    | 0, a => a
    | n + 1, a =>
      if a.coefficient % 10 = 0 ∧ a.scale ≠ 0 then
        match ofParts? (a.coefficient / 10) (a.scale - 1) with
        | some b => go n b
        | none => a
      else a

/-- Multiplies by a power of ten in one or two steps. -/
def timesPower (a : Decimal) (e : Nat) : Option Decimal := do
  let power (n : Nat) : Option Decimal := ofParts? (Int.pow 10 n) 0
  let a ← a.mul (← power (Nat.min e 19))
  if 19 < e then a.mul (← power (e - 19)) else return a

/-- Multiplies by a power of ten: fewer decimal places, and, where they do not suffice, a greater
coefficient without trailing zeros behind the point. -/
def raise (a : Decimal) (e : Nat) : Except ReadFault Decimal :=
  if e ≤ a.scale then
    match ofParts? a.coefficient (a.scale - e) with
    | some b => .ok b
    | none => .error .outOfRange
  else if maxScale < e then .error (.scale e)
  else
    match a.timesPower e with
    | some b => .ok b.dropTrailingZeros
    | none => .error .outOfRange

/-- Reads a number with a power of ten: a plain number, `e` or `E`, an optional sign, and digits
that write a number below `2 ^ 32`. -/
def readPower (cs : List Char) : Except ReadFault Decimal := do
  let isMark (c : Char) : Bool := c = 'e' || c = 'E'
  let a ← readPlain (cs.takeWhile (!isMark ·))
  match (cs.dropWhile (!isMark ·)).drop 1 with
  | '-' :: ds =>
    match readSigned? (Nat.pow 2 32) ds with
    | some e => a.lower e
    | none => .error .exponent
  | ds =>
    match readSigned? (Nat.pow 2 32) ds with
    | some e => a.raise e
    | none => .error .exponent

/-- Reads a number. One that is not plain is read with a power of ten if it has the mark of
one. -/
def ofChars (cs : List Char) : Except ReadFault Decimal :=
  match readPlain cs with
  | .ok a => .ok a
  | .error f => if cs.any (fun c => c = 'e' || c = 'E') then readPower cs else .error f

/-- reads a number from a text -/
def ofText (s : String) : Except ReadFault Decimal := ofChars s.toList

end MarketFeed.Decimal
