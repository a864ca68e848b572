import MarketFeed.Json.Basic
import MarketFeed.Json.Fault
import MarketFeed.Text.Digit
import MarketFeed.Text.Glyph

/-!
# Numbers in JSON texts

A number without fraction and exponent that fits 64 bits is exact. Any other number is scaled: its
digits, as far as they fit 64 bits, are one rounded double, a power of ten is another, and the
number is their rounded product or quotient.

## Main definitions

* `Json.readNumber`: the value of a number
* `Json.skipNumber`: the end of a number whose value is not wanted
-/

namespace MarketFeed.Json

open Text

/-- a glyph that is a digit -/
def digitGlyph? : Glyph → Option Char
  | some c => if isDigit c then some c else none
  | none => none

/-- Splits the digits off the front of a text. -/
def spanDigitGlyphs : List Glyph → List Char × List Glyph
  | [] => ([], [])
  | g :: gs =>
    match digitGlyph? g with
    | some c => let (ds, rest) := spanDigitGlyphs gs; (c :: ds, rest)
    | none => ([], g :: gs)

/-- The digits of a number gathered so far: a mantissa of 64 bits and a power of ten. -/
structure Mantissa where
  value : Nat
  power : Int

/-- the mantissa has room for another digit -/
def Mantissa.hasRoom (m : Mantissa) (c : Char) : Bool := 10 * m.value + digitValue c < Nat.pow 2 64

/-- Takes the digits before the point. Once one does not fit, it and all after it only raise the
power of ten. -/
def Mantissa.takeWhole : Mantissa → List Char → Mantissa
  | m, [] => m
  | m, c :: cs =>
    if m.hasRoom c then takeWhole ⟨10 * m.value + digitValue c, m.power⟩ cs
    else ⟨m.value, m.power + (cs.length + 1 : Nat)⟩

/-- Takes the digits behind the point. Once one does not fit, it and all after it are
dropped. -/
def Mantissa.takePlaces : Mantissa → List Char → Mantissa
  | m, [] => m
  | m, c :: cs =>
    if m.hasRoom c then takePlaces ⟨10 * m.value + digitValue c, m.power - 1⟩ cs else m

/-- Divides by `10 ^ n`, where `n` may exceed the powers of ten that are doubles. -/
def scaleDown (x : Binary64) : (steps n : Nat) → Binary64
  | 0, _ => Binary64.zero false
  | steps + 1, n =>
    if n ≤ 308 then x.div (Binary64.ofNat (Nat.pow 10 n))
    else if x.isZero then x
    else scaleDown (x.div (Binary64.ofNat (Nat.pow 10 308))) steps (n - 308)

/-- The double for a mantissa and a power of ten, if it is finite. Three divisions by `10 ^ 308`
bring every mantissa of 64 bits to zero. -/
def Mantissa.toReal (m : Mantissa) : Option Binary64 :=
  let x := Binary64.ofNat m.value
  if m.power < 0 then some (scaleDown x 4 (-m.power).toNat)
  else if 308 < m.power then if x.isZero then some x else none
  else
    let y := x.mul (Binary64.ofNat (Nat.pow 10 m.power.toNat))
    if y.isInfinite then none else some y

/-- a double with a sign -/
def signedReal (negative : Bool) (x : Binary64) : Json := .real (if negative then x.neg else x)

/-- The value of a number with fraction or exponent. -/
def realNumber (negative : Bool) (m : Mantissa) : Except SyntaxFault Json :=
  match m.toReal with
  | some x => .ok (signedReal negative x)
  | none => .error .numberOutOfRange

/-- The value of a number that is followed by an exponent. Exponents beyond 32 bits decide alone:
the number is zero or out of range. -/
def withExponent (negative : Bool) (m : Mantissa) (down : Bool) (ds : List Char) :
    Except SyntaxFault Json :=
  let e := ofDigits ds
  if Nat.pow 2 31 ≤ e then
    if m.value ≠ 0 ∧ ¬ down then .error .numberOutOfRange
    else .ok (signedReal negative (Binary64.zero false))
  else realNumber negative ⟨m.value, if down then m.power - e else m.power + e⟩

/-- The value of a number without fraction and exponent, from its digits. -/
def wholeNumber (negative : Bool) (ds : List Char) : Except SyntaxFault Json :=
  let n := ofDigits ds
  if Nat.pow 2 64 ≤ n then realNumber negative (Mantissa.takeWhole ⟨0, 0⟩ ds)
  else if ¬ negative then .ok (.integer n)
  else if n = 0 ∨ Nat.pow 2 63 < n then .ok (signedReal true (Binary64.ofNat n))
  else .ok (.integer (-n))

/-- the sign of an exponent: whether it is negative, and the rest -/
def exponentSign : List Glyph → Bool × List Glyph
  | some '+' :: gs => (false, gs)
  | some '-' :: gs => (true, gs)
  | gs => (false, gs)

/-- Reads the part of a number from the exponent mark on, if there is one. -/
def readExponent (negative : Bool) (m : Mantissa) (bare : Except SyntaxFault Json) :
    List Glyph → Except SyntaxFault (Json × List Glyph)
  | some 'e' :: gs | some 'E' :: gs =>
    let (down, gs) := exponentSign gs
    match spanDigitGlyphs gs with
    | ([], []) => .error .endOfValue
    | ([], _) => .error .invalidNumber
    | (ds, rest) => do return (← withExponent negative m down ds, rest)
  | gs => do return (← bare, gs)

/-- Reads the part of a number behind the digits before the point. -/
def readFraction (negative : Bool) (whole : List Char) :
    List Glyph → Except SyntaxFault (Json × List Glyph)
  | some '.' :: gs =>
    match spanDigitGlyphs gs with
    | ([], []) => .error .endOfValue
    | ([], _) => .error .invalidNumber
    | (ds, rest) =>
      let m := (Mantissa.takeWhole ⟨0, 0⟩ whole).takePlaces ds
      readExponent negative m (realNumber negative m) rest
  | gs =>
    readExponent negative (Mantissa.takeWhole ⟨0, 0⟩ whole) (wholeNumber negative whole) gs

/-- Reads a number from behind its sign. -/
def readMagnitude (negative : Bool) (gs : List Glyph) : Except SyntaxFault (Json × List Glyph) :=
  match spanDigitGlyphs gs with
  | ([], []) => .error .endOfValue
  | ([], _) => .error .invalidNumber
  | ('0' :: _ :: _, _) => .error .invalidNumber
  | (ds, rest) => readFraction negative ds rest

/-- Reads a number: its value and the rest of the text. -/
def readNumber : List Glyph → Except SyntaxFault (Json × List Glyph)
  | some '-' :: gs => readMagnitude true gs
  | gs => readMagnitude false gs

/-- Skips an exponent, if there is one. -/
def skipExponent : List Glyph → Except SyntaxFault (List Glyph)
  | some 'e' :: gs | some 'E' :: gs =>
    match spanDigitGlyphs (exponentSign gs).2 with
    | ([], _) => .error .invalidNumber
    | (_, rest) => .ok rest
  | gs => .ok gs

/-- Skips fraction and exponent. -/
def skipFraction : List Glyph → Except SyntaxFault (List Glyph)
  | some '.' :: gs =>
    match spanDigitGlyphs gs with
    | ([], _) => .error .invalidNumber
    | (_, rest) => skipExponent rest
  | gs => skipExponent gs

/-- Skips a number without a look at its value; only its form must be right. -/
def skipNumber (gs : List Glyph) : Except SyntaxFault (List Glyph) :=
  match spanDigitGlyphs (if gs.head? = some (some '-') then gs.tail else gs) with
  | ([], _) => .error .invalidNumber
  | ('0' :: _ :: _, _) => .error .invalidNumber
  | (_, rest) => skipFraction rest

end MarketFeed.Json
