import MarketFeed.Json.Decode

/-!
# Sides of the book

## Main definitions

* `Side`: buy or sell
* `Side.decoder`: from the text of a message
* `Side.ofValue`: from a value that has been read
-/

namespace MarketFeed

/-- The side of a resting order. -/
inductive Side
  | buy
  | sell
  deriving DecidableEq, Repr

namespace Side

open Json

/-- the name of a side in messages -/
def name : Side → String
  | .buy => "buy"
  | .sell => "sell"

/-- the names of the sides -/
def names : List String := ["buy", "sell"]

/-- the side with a name -/
def ofName (s : String) : Except DecodeFault Side :=
  if s = "buy" then .ok .buy
  else if s = "sell" then .ok .sell
  else .error (.unknownVariant s names)

/-- The fault of a text behind the only member that a side may have. -/
def afterMember (more : Bool) : Option Flaw → Except DecodeFault Unit
  | none => if more then .error (.malformed .expectedValue) else .ok ()
  | some flaw =>
    if ¬ more ∧ flaw.strict = .endOfObject then .error (.malformed .endOfObject)
    else .error (.malformed .expectedValue)

/-- A side is its name, or an object with its name as the key of null. -/
def decoder : Decoder Side
  | .string s => ofName s
  | .text f _ => .error (.malformed f)
  | .missing f => .error (.malformed f)
  | .object [] none => .error (.malformed .expectedValue)
  | .object [] (some _) => .error (.malformed .endOfValue)
  | .object ((k, v) :: ms) stop => do
    let s ← match k with
      | .string s => ofName s
      | k => Decoder.refuse "variant identifier" k
    Decoder.unit v
    afterMember (!ms.isEmpty) stop
    return s
  | _ => .error (.malformed .expectedValue)

/-- A side from a value that has been read; repeated keys of an object count once. -/
def ofValue : Json → Except DecodeFault Side
  | .string s => ofName s
  | .object ms =>
    match settled ms with
    | [(k, v)] => do
      let s ← ofName k
      Decoder.unit (Draft.ofJson v)
      return s
    | _ => .error (.invalidValue .map "map with a single key")
  | v => Decoder.refuse "string or map" (Draft.ofJson v)

end Side

end MarketFeed
