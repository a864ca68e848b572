import MarketFeed.Text.Digit
import MarketFeed.Text.Hex
import MarketFeed.Toml.Basic
import MarketFeed.Toml.Token

/-!
# Numbers in TOML texts

A number is made of words: the point and a plus sign are tokens of their own. Underscores may stand
between digits.

## Main definitions

* `Toml.readNumber`: the number that begins with a word
-/

namespace MarketFeed.Toml

open Text

/-- a digit to a base of at most sixteen -/
def isDigitOf (base : Nat) (c : Char) : Bool := (hexValue? c).any (· < base)

/-- The digits at the front of a text, without underscores, and the rest. There must be one;
underscores stand between digits only, and where `zeros` does not allow it nothing follows a
leading zero. -/
def scanDigits (zeros : Bool) (base : Nat) :
    (first zero underscore : Bool) → List Char → Option (List Char × List Char)
  | first, _, underscore, [] => if first || underscore then none else some ([], [])
  | first, zero, underscore, c :: cs =>
    let push := Option.map fun ((ds, rest) : List Char × List Char) => (c :: ds, rest)
    if c == '0' && first then push (scanDigits zeros base false true underscore cs)
    else if isDigitOf base c then
      if !first && zero && !zeros then none else push (scanDigits zeros base false zero false cs)
    else if c == '_' && first then none
    else if c == '_' && !underscore then scanDigits zeros base false zero true cs
    else if first || underscore then none
    else some ([], c :: cs)

/-- The digits at the front of a text, to some base. -/
def digitsOf (zeros : Bool) (base : Nat) (cs : List Char) : Option (List Char × List Char) :=
  scanDigits zeros base true false false cs

/-- A minus sign at the front of a text. -/
def splitSign : List Char → Bool × List Char
  | '-' :: cs => (true, cs)
  | '+' :: cs => (false, cs)
  | cs => (false, cs)

/-- the value of digits to some base -/
def valueOf (base : Nat) (ds : List Char) : Nat :=
  ds.foldl (fun n d => base * n + (hexValue? d).getD 0) 0

/-- an integer of 64 bits -/
def integerOf (negative : Bool) (n : Nat) : Option Toml :=
  if negative then if n ≤ Nat.pow 2 63 then some (.integer (-n)) else none
  else if n < Nat.pow 2 63 then some (.integer n) else none

/-- A word that is an integer to some base. -/
def readInteger (signed zeros : Bool) (base : Nat) (cs : List Char) : Option Toml := do
  let (negative, cs) := if signed then splitSign cs else (false, cs)
  let (ds, rest) ← digitsOf zeros base cs
  if rest = [] then integerOf negative (valueOf base ds) else none

/-- a finite double -/
def realOf (negative : Bool) (ds : List Char) (power : Int) : Option Toml :=
  match Binary64.ofPower10 negative (ofDigits ds) power with
  | .finite s m e => some (.real (.finite s m e))
  | _ => none

/-- What follows the digits of a double: nothing, or an exponent. A plus sign of the exponent ends
the word. -/
def readPower (suffix : List Char) (ts : List Token) : Option (Int × List Token) :=
  let signedBy (negative : Bool) (r : Option (List Char × List Char)) (ts : List Token) :
      Option (Int × List Token) := do
    let (ds, rest) ← r
    if rest = [] then
      some (if negative then -(ofDigits ds : Int) else (ofDigits ds : Int), ts)
    else none
  match suffix with
  | [] => some (0, ts)
  | [c] =>
    if c = 'e' ∨ c = 'E' then
      match ts with
      | .plus :: .word w :: ts | .word w :: ts => signedBy false (digitsOf true 10 w.toList) ts
      | _ => none
    else none
  | c :: cs =>
    if c = 'e' ∨ c = 'E' then
      let (negative, cs) := splitSign cs
      signedBy negative (digitsOf true 10 cs) ts
    else none

/-- A double: the word before the point, the one behind it if there is a point, and perhaps an
exponent. -/
def readReal (whole : List Char) (places : Option (List Char)) (ts : List Token) :
    Option (Toml × List Token) := do
  let (negative, whole) := splitSign whole
  let (ds, suffix) ← digitsOf false 10 whole
  let (fraction, suffix) ← match places with
    | none => some ([], suffix)
    | some cs => if suffix = [] then digitsOf true 10 cs else none
  let (power, ts) ← readPower suffix ts
  return (← realOf negative (ds ++ fraction) (power - fraction.length), ts)

/-- The number that begins with a word. -/
def readNumber (w : String) (ts : List Token) : Option (Toml × List Token) :=
  let whole (v : Option Toml) : Option (Toml × List Token) := v.map (·, ts)
  match w.toList with
  | '0' :: 'x' :: cs => whole (readInteger false true 16 cs)
  | '0' :: 'o' :: cs => whole (readInteger false true 8 cs)
  | '0' :: 'b' :: cs => whole (readInteger false true 2 cs)
  | cs =>
    if cs.contains 'e' || cs.contains 'E' then readReal cs none ts
    else match ts with
      | .period :: .word places :: ts => readReal cs (some places.toList) ts
      | .period :: _ => none
      | _ =>
        match w with
        | "inf" => some (.real (.infinite false), ts)
        | "-inf" => some (.real (.infinite true), ts)
        | "nan" | "-nan" => some (.real .undefined, ts)
        | _ => whole (readInteger true false 10 cs)

end MarketFeed.Toml
