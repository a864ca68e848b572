import MarketFeed.Binary64.Reader
import MarketFeed.Json.Draft
import MarketFeed.Settings.Variables
import MarketFeed.Table
import MarketFeed.Text.LowerCase
import MarketFeed.Toml.Document

/-!
# Layers of settings

Settings come in layers, of which a later one wins over an earlier one. A key may name a place
inside a setting; as no setting has an inside, all that matters is whether it makes a table or a
list of the setting.

## Main definitions

* `SettingValue`: what a layer says about a setting
* `KeyPath`: what a key names
* `Layer`: the keys and values of a source
* `Layer.ofJson`, `Layer.ofToml`, `Layer.ofVariables`: the layers by source
* `Layered`: the settings of layers that lie on each other
-/

namespace MarketFeed

open Text

/-- What a layer says about a setting. A table without members leaves a setting as it is. -/
inductive SettingValue
  | null
  | bool (b : Bool)
  | integer (n : Int)
  | real (x : Binary64)
  | text (s : String)
  | list
  | table (empty : Bool)
  deriving DecidableEq

namespace SettingValue

/-- A JSON value as a setting. An integer beyond the signed ones counts as a double. -/
def ofJson : Json → SettingValue
  | .null => .null
  | .bool b => .bool b
  | .integer n => if n < Int.pow 2 63 then .integer n else .real (Binary64.ofNat n.toNat)
  | .real x => .real x
  | .string s => .text s
  | .array _ => .list
  | .object ms => .table ms.isEmpty

/-- a TOML value as a setting -/
def ofToml : Toml → SettingValue
  | .string s => .text s
  | .integer n => .integer n
  | .real x => .real x
  | .bool b => .bool b
  | .date s => .text s
  | .array _ => .list
  | .table ms => .table ms.isEmpty

/-- A text of digits, after at most one sign, read as an integer of 64 bits. -/
def readInteger? (cs : List Char) : Option Int :=
  match cs with
  | '-' :: cs => (readNat? (Nat.pow 2 63 + 1) cs).map fun n => -(n : Int)
  | cs => (readSigned? (Nat.pow 2 63) cs).map Int.ofNat

/-- A text as a setting: a truth value, an integer or a double if it reads like one. -/
def ofText (s : String) : SettingValue :=
  match lowerCaseText s with
  | "true" => .bool true
  | "false" => .bool false
  | _ =>
    match readInteger? s.toList with
    | some n => .integer n
    | none =>
      match Binary64.ofChars? s.toList with
      | some x => .real x
      | none => .text s

end SettingValue

/-- What the first step of a key behind its name leads into. -/
inductive KeyStep
  | member
  | position
  deriving DecidableEq

/-- What a key names: a setting, or a place inside it. -/
structure KeyPath where
  name : String
  inside : Option KeyStep
  deriving DecidableEq

namespace KeyPath

/-- A character of a name. -/
def isNameChar (c : Char) : Bool := c.isAlphanum || c == ' ' || c == '_' || c == '-'

/-- a space or a tab -/
def isSpace (c : Char) : Bool := c == ' ' || c == '\t'

/-- Takes a name off the front of a key. -/
def takeName (cs : List Char) : Option (List Char × List Char) :=
  match cs.span isNameChar with
  | ([], _) => none
  | r => some r

/-- Takes a position, from behind its bracket, off the front of a key. -/
def takePosition (cs : List Char) : Option (List Char) :=
  let cs := cs.dropWhile isSpace
  let (negative, cs) := match cs with
    | '-' :: cs => (true, cs)
    | cs => (false, cs)
  let (ds, rest) := spanDigits cs
  let limit := if negative then Nat.pow 2 63 + 1 else Nat.pow 2 63
  match readNat? limit ds, rest.dropWhile isSpace with
  | some _, ']' :: rest => some rest
  | _, _ => none

/-- The steps of a key behind its name, if it has no others. -/
def steps : (fuel : Nat) → List Char → Option (List KeyStep)
  | _, [] => some []
  | 0, _ => none
  | n + 1, '.' :: cs => do
    let (_, rest) ← takeName cs
    return .member :: (← steps n rest)
  | n + 1, '[' :: cs => do
    let rest ← takePosition cs
    return .position :: (← steps n rest)
  | _ + 1, _ => none

/-- What a key names. A key that cannot be taken apart is a name as a whole. -/
def ofText (key : String) : KeyPath :=
  let parts := do
    let (name, rest) ← takeName key.toList
    return (name, ← steps rest.length rest)
  match parts with
  | some (name, ss) => ⟨String.ofList name, ss.head?⟩
  | none => ⟨key, none⟩

end KeyPath

/-- The keys and values of a source. -/
structure Layer where
  /-- the source's name -/
  origin : String
  entries : List (String × SettingValue)
  deriving DecidableEq

namespace Layer

/-- The layer of a JSON text: anything but an object is empty. -/
def ofJson (origin text : String) : Option Layer :=
  match Json.readText text with
  | .ok (.object ms) =>
    some ⟨origin, (Json.settled ms).map fun m => (m.1, SettingValue.ofJson m.2)⟩
  | .ok _ => some ⟨origin, []⟩
  | .error _ => none

/-- The layer of a TOML text. -/
def ofToml (origin text : String) : Option Layer :=
  (Toml.read text).map fun ms => ⟨origin, ms.map fun m => (m.1, SettingValue.ofToml m.2)⟩

/-- what the names of variables begin with -/
def variablePrefix : String := "cbpro_"

/-- the name of the layer of the environment -/
def environmentName : String := "the environment"

/-- The setting that a variable is about, by the lower case of its name. -/
def settingOf? (name : String) : Option String :=
  let cs := (lowerCaseText name).toList
  let start := variablePrefix.toList
  if start.isPrefixOf cs then some (String.ofList (cs.drop start.length)) else none

/-- The name of the variable that sets a setting. -/
def variableName (name : String) : String :=
  "CBPRO_" ++ String.ofList (name.toList.map Char.toUpper)

/-- The layer of the variables. -/
def ofVariables (vs : Variables) : Layer :=
  ⟨environmentName, vs.filterMap fun v => do return (← settingOf? v.1, SettingValue.ofText v.2)⟩

end Layer

/-- A value with the name of its source; what is put together from several has none. -/
structure Sourced where
  value : SettingValue
  origin : Option String
  deriving DecidableEq

/-- The settings of layers that lie on each other. -/
abbrev Layered := Table Sourced

namespace Layered

/-- Lays a value on what is known of a setting. -/
def lay (origin : String) (v : SettingValue) (below : Option Sourced) : Sourced :=
  match v, below with
  | .table true, some s => s
  | .table empty, _ => ⟨.table empty, none⟩
  | v, _ => ⟨v, some origin⟩

/-- Lays something inside a setting on what is known of the setting. -/
def layInside (step : KeyStep) (below : Option Sourced) : Sourced :=
  match step, below with
  | .position, some ⟨.list, origin⟩ => ⟨.list, origin⟩
  | .position, _ => ⟨.list, none⟩
  | .member, _ => ⟨.table false, none⟩

/-- Lays an entry of a layer on the settings. -/
def layEntry (origin : String) (t : Layered) (entry : String × SettingValue) : Layered :=
  let path := KeyPath.ofText entry.1
  let below := t.find? path.name
  t.insert path.name (match path.inside with
    | none => lay origin entry.2 below
    | some step => layInside step below)

/-- Lays a layer on the settings. -/
def layOn (t : Layered) (l : Layer) : Layered := l.entries.foldl (layEntry l.origin) t

end Layered

end MarketFeed
