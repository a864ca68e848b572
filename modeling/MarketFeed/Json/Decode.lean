import MarketFeed.Binary64.Shortest
import MarketFeed.Decimal.Reader
import MarketFeed.Instant.Reader
import MarketFeed.Json.Draft
import MarketFeed.Text.Quoted

/-!
# Typed values from JSON

A decoder takes the draft of a value apart in the order of the text, so the first fault it meets,
whether of form or of meaning, is the one it reports.

## Main definitions

* `DecodeFault`: why a value is not of a type
* `Decoder`: reads a type from a draft
* `Decoder.string`, `Decoder.natural`, `Decoder.decimal`, `Decoder.instant`, `Decoder.list`
* `Field`, `Decoder.record`: the fields of a record, from an object or from an array
* `Decoder.run`: reads a type from a whole text
-/

namespace MarketFeed.Json

open Text

/-- What was found where something else was expected. -/
inductive Found
  | null
  | bool (b : Bool)
  | integer (n : Int)
  | real (x : Binary64)
  | string (s : String)
  | sequence
  | map
  deriving DecidableEq, Repr

/-- the wording of what was found -/
def Found.message : Found → String
  | .null => "null"
  | .bool b => s!"boolean `{b}`"
  | .integer n => s!"integer `{n}`"
  | .real x => s!"floating point `{x.scientificText}`"
  | .string s => s!"string {Text.quoted s}"
  | .sequence => "sequence"
  | .map => "map"

/-- Why a value is not of a type. -/
inductive DecodeFault
  | malformed (fault : SyntaxFault)
  | missingField (name : String)
  | duplicateField (name : String)
  | unknownVariant (name : String) (known : List String)
  | invalidType (found : Found) (expected : String)
  | invalidValue (found : Found) (expected : String)
  | invalidLength (length : Nat) (expected : String)
  | decimal (fault : Decimal.ReadFault)
  | instant (fault : Instant.ReadFault)
  | rowShape
  deriving DecidableEq, Repr

/-- names as alternatives, each in marks -/
def alternatives : List String → String
  | [a, b] => s!"expected `{a}` or `{b}`"
  | names => "expected one of " ++ ", ".intercalate (names.map fun n => s!"`{n}`")

/-- the wording of a fault -/
def DecodeFault.message : DecodeFault → String
  | .malformed f => f.message
  | .missingField n => s!"missing field `{n}`"
  | .duplicateField n => s!"duplicate field `{n}`"
  | .unknownVariant n known => s!"unknown variant `{n}`, {alternatives known}"
  | .invalidType u e => s!"invalid type: {u.message}, expected {e}"
  | .invalidValue u e => s!"invalid value: {u.message}, expected {e}"
  | .invalidLength n e => s!"invalid length {n}, expected {e}"
  | .decimal f => f.message
  | .instant f => f.message
  | .rowShape => "Invalid level 3 row format"

/-- Passes a syntax fault on as a reason not to be of a type. -/
def wellFormed {α : Type} (r : Except SyntaxFault α) : Except DecodeFault α :=
  r.mapError .malformed

/-- What stands at a draft; a value that cannot be told apart is a fault of its own. -/
def Draft.found : Draft → Except SyntaxFault Found
  | .missing f => .error f
  | .word f => .error f
  | .number f _ => .error f
  | .text f _ => .error f
  | .null => .ok .null
  | .bool b => .ok (.bool b)
  | .integer n => .ok (.integer n)
  | .real x => .ok (.real x)
  | .string s => .ok (.string s)
  | .array _ _ => .ok .sequence
  | .object _ _ => .ok .map

mutual

/-- The draft of a value. -/
def Draft.ofJson : Json → Draft
  | .null => .null
  | .bool b => .bool b
  | .integer n => .integer n
  | .real x => .real x
  | .string s => .string s
  | .array vs => .array (Draft.ofItems vs) none
  | .object ms => .object (Draft.ofMembers ms) none

/-- The drafts of the items of an array. -/
def Draft.ofItems : List Json → List Draft
  | [] => []
  | v :: vs => Draft.ofJson v :: Draft.ofItems vs

/-- The drafts of the members of an object. -/
def Draft.ofMembers : List (String × Json) → List (Draft × Draft)
  | [] => []
  | (k, v) :: ms => (.string k, Draft.ofJson v) :: Draft.ofMembers ms

end

/-- Reads a type from a draft. -/
abbrev Decoder (α : Type) := Draft → Except DecodeFault α

namespace Decoder

/-- Refuses a draft for what stands there. -/
def refuse {α : Type} (expected : String) (d : Draft) : Except DecodeFault α := do
  .error (.invalidType (← wellFormed d.found) expected)

/-- any string -/
def string : Decoder String
  | .string s => .ok s
  | d => refuse "a string" d

/-- A number without sign, fraction and exponent that fits 64 bits. -/
def natural (expected : String) : Decoder Nat
  | .integer n => if n < 0 then .error (.invalidValue (.integer n) expected) else .ok n.toNat
  | d => refuse expected d

/-- a position in a stream -/
def u64 : Decoder Nat := natural "u64"

/-- a count -/
def usize : Decoder Nat := natural "usize"

/-- what a decimal is called in faults -/
def decimalName : String := "a Decimal type representing a fixed-point number"

/-- A decimal: an integer, the plain digits of a double, or a text. -/
def decimal : Decoder Decimal
  | .integer n =>
    match Decimal.ofParts? n 0 with
    | some a => .ok a
    | none => .error (.invalidValue (.integer n) decimalName)
  | .real x =>
    match Decimal.ofText x.plainText with
    | .ok a => .ok a
    | .error _ => .error (.invalidValue (.real x) decimalName)
  | .string s =>
    match Decimal.ofText s with
    | .ok a => .ok a
    | .error _ => .error (.invalidValue (.string s) decimalName)
  | d => refuse decimalName d

/-- a value that may be null -/
def optional {α : Type} (decode : Decoder α) : Decoder (Option α)
  | .null => .ok none
  | d => (decode d).map some

/-- an instant, from its text -/
def instant : Decoder Instant
  | .string s => (Instant.ofText s).mapError .instant
  | d => refuse "an RFC 3339 formatted date and time string" d

/-- null -/
def unit : Decoder Unit
  | .null => .ok ()
  | d => refuse "unit" d

/-- The items of an array, each decoded in turn. -/
def list {α : Type} (decode : Decoder α) : Decoder (List α)
  | .array items stop => do
    let vs ← items.mapM decode
    match stop with
    | some flaw => .error (.malformed flaw.strict)
    | none => return vs
  | d => refuse "a sequence" d

end Decoder

/-- A field of a record: its name, what its value must be, and whether it may be left out at the end
of an array. -/
structure Field where
  name : String
  check : Draft → Except DecodeFault Unit
  defaulted : Bool

/-- a field that an array must hold -/
def Field.of {α : Type} (name : String) (decode : Decoder α) : Field :=
  ⟨name, fun d => (decode d).map fun _ => (), false⟩

/-- a field that an array may leave out at its end -/
def Field.defaulting {α : Type} (name : String) (decode : Decoder α) : Field :=
  ⟨name, fun d => (decode d).map fun _ => (), true⟩

/-- What a draft holds for each field of a record. -/
abbrev Slots := String → Option Draft

namespace Slots

/-- the value of a field that must be there -/
def required {α : Type} (slots : Slots) (name : String) (decode : Decoder α) :
    Except DecodeFault α :=
  match slots name with
  | some d => decode d
  | none => .error (.missingField name)

/-- the value of a field that may be missing -/
def orElse {α : Type} (slots : Slots) (name : String) (default : α) (decode : Decoder α) :
    Except DecodeFault α :=
  match slots name with
  | some d => decode d
  | none => .ok default

/-- the value of a field that may be missing or null -/
def optional {α : Type} (slots : Slots) (name : String) (decode : Decoder α) :
    Except DecodeFault (Option α) :=
  slots.orElse name none (Decoder.optional decode)

/-- the first value of each key of an object -/
def ofMembers (ms : List (Draft × Draft)) : Slots := fun name =>
  (ms.find? fun m => match m.1 with | .string k => k == name | _ => false).map Prod.snd

/-- the items of an array under the names of the fields they stand for -/
def ofItems (fields : List Field) (items : List Draft) : Slots := fun name =>
  ((fields.zip items).find? fun x => x.1.name == name).map Prod.snd

end Slots

/-- Checks the members of an object in the order of the text: a field must not be repeated and must
be what it should, anything else is passed over. -/
def checkMembers (fields : List Field) : (seen : List String) → List (Draft × Draft) →
    Except DecodeFault Unit
  | _, [] => .ok ()
  | seen, (k, v) :: ms => do
    let name ← wellFormed k.key
    match fields.find? (fun f => f.name == name) with
    | none => wellFormed v.skip
    | some f => if seen.contains name then .error (.duplicateField name) else f.check v
    checkMembers fields (name :: seen) ms

/-- Checks the items of an array against the fields they stand for; the number of items is left to
the caller. -/
def checkItems : List Field → List Draft → Except DecodeFault Unit
  | f :: fs, v :: vs => do
    f.check v
    checkItems fs vs
  | _, _ => .ok ()

/-- The fault of a text behind the last item that a record takes from an array. -/
def afterLast (extra : Bool) : Option Flaw → Except DecodeFault Unit
  | none => if extra then .error (.malformed .trailingCharacters) else .ok ()
  | some flaw =>
    if extra ∨ flaw.strict = .expectedListSeparator then .error (.malformed .trailingCharacters)
    else .error (.malformed flaw.strict)

/-- The number of items that an array must hold at least: all fields but the defaulted ones at the
end. -/
def requiredLength (fields : List Field) : Nat :=
  (fields.reverse.dropWhile (·.defaulted)).length

/-- Checks an array that stands for a record. -/
def checkArray (expected : String) (fields : List Field) (items : List Draft)
    (stop : Option Flaw) : Except DecodeFault Unit := do
  checkItems fields items
  if items.length < fields.length then
    match stop with
    | some flaw => .error (.malformed flaw.strict)
    | none =>
      if items.length < requiredLength fields then
        .error (.invalidLength items.length s!"{expected} with {fields.length} elements")
      else .ok ()
  else afterLast (fields.length < items.length) stop

namespace Decoder

/-- The fields of a record, from an object or from an array that holds them in order. -/
def record (expected : String) (fields : List Field) : Decoder Slots
  | .object members stop => do
    checkMembers fields [] members
    match stop with
    | some flaw => .error (.malformed flaw.strict)
    | none => return Slots.ofMembers members
  | .array items stop => do
    checkArray expected fields items stop
    return Slots.ofItems fields items
  | d => refuse expected d

/-- Reads a type from a whole text. -/
def runGlyphs {α : Type} (decode : Decoder α) (gs : List Glyph) : Except DecodeFault α := do
  let d := Document.ofGlyphs gs
  let a ← decode d.root
  wellFormed d.finish
  return a

/-- Reads a type from a whole text. -/
def run {α : Type} (decode : Decoder α) (s : String) : Except DecodeFault α :=
  decode.runGlyphs (glyphs s)

end Decoder

end MarketFeed.Json
