import MarketFeed.Json.Quoted

/-!
# Drafts of JSON texts

The reading of a text is kept together with its faults, each at the place where it is met, so that
whoever takes a draft apart in the order of the text meets the first fault that matters. Some faults
do not matter where a value is skipped: a number out of range, or half a surrogate pair.

## Main definitions

* `Draft`: a value as far as it could be read
* `Draft.ofGlyphs`, `Draft.ofText`: the draft of a text
* `Draft.skip`: passes over a value
* `Draft.value`: the value, if it has no fault
* `Json.read`: the value of a whole text
-/

namespace MarketFeed.Json

open Text

/-- A fault of a container: as it is met by a reader and by one that skips. -/
structure Flaw where
  strict : SyntaxFault
  skipped : SyntaxFault
  deriving DecidableEq, Repr

/-- the same fault for both readers -/
def Flaw.plain (f : SyntaxFault) : Flaw := ⟨f, f⟩

/-- A value as far as it could be read. Of an object the last member may have a key that is no
string, or a value that was not reached. -/
inductive Draft
  /-- no value can be read here -/
  | missing (fault : SyntaxFault)
  /-- a misspelt word -/
  | word (fault : SyntaxFault)
  /-- a faulty number; `skipped` is the fault for a reader that skips it -/
  | number (fault : SyntaxFault) (skipped : Option SyntaxFault)
  /-- a faulty string; `skipped` is the fault for a reader that skips it -/
  | text (fault : SyntaxFault) (skipped : Option SyntaxFault)
  | null
  | bool (b : Bool)
  | integer (n : Int)
  | real (x : Binary64)
  | string (s : String)
  | array (items : List Draft) (stop : Option Flaw)
  | object (members : List (Draft × Draft)) (stop : Option Flaw)

instance : Inhabited Draft := ⟨.null⟩

/-- JSON white space; no other character counts. -/
def isSpace (c : Char) : Bool := c == ' ' || c == '\n' || c == '\t' || c == '\r'

/-- A text without white space at its start. -/
def skipSpace : List Glyph → List Glyph
  | some c :: gs => if isSpace c then skipSpace gs else some c :: gs
  | gs => gs

/-- Drafts a string from behind its opening quote. The rest of the text is missing where the end of
the string cannot be found. -/
def draftString (gs : List Glyph) : Draft × Option (List Glyph) :=
  match readString gs with
  | .ok (s, rest) => (.string s, some rest)
  | .error f =>
    match skipString gs with
    | .ok rest => (.text f none, some rest)
    | .error g => (.text f (some g), none)

/-- the draft of a value that has been read -/
def draftNumberValue : Json → Draft
  | .integer n => .integer n
  | .real x => .real x
  | _ => .null

/-- Drafts a number. -/
def draftNumber (gs : List Glyph) : Draft × Option (List Glyph) :=
  match readNumber gs with
  | .ok (v, rest) => (draftNumberValue v, some rest)
  | .error f =>
    match skipNumber gs with
    | .ok rest => (.number f none, some rest)
    | .error g => (.number f (some g), none)

/-- Drafts a word whose first letter has been seen, `letters` being the others. -/
def draftWord (v : Draft) : (letters : List Char) → List Glyph → Draft × Option (List Glyph)
  | [], gs => (v, some gs)
  | _ :: _, [] => (.word .endOfValue, none)
  | c :: cs, g :: gs => if g = some c then draftWord v cs gs else (.word .expectedWord, none)

/-- A text cannot be drafted beyond this point. -/
def brokenOff {α : Type} (a : α) : α × Option (List Glyph) := (a, none)

mutual

/-- Drafts the value at the start of a text. Of three nested calls at least one passes a glyph, so
fuel three times as long as the text is enough. -/
def draftValue : (fuel : Nat) → List Glyph → Draft × Option (List Glyph)
  | 0, _ => brokenOff (.missing .endOfValue)
  | fuel + 1, gs =>
    match skipSpace gs with
    | [] => brokenOff (.missing .endOfValue)
    | some '"' :: rest => draftString rest
    | some '[' :: rest =>
      let (items, stop, rest) := draftItems fuel true rest
      (.array items stop, rest)
    | some '{' :: rest =>
      let (members, stop, rest) := draftMembers fuel true rest
      (.object members stop, rest)
    | some 't' :: rest => draftWord (.bool true) ['r', 'u', 'e'] rest
    | some 'f' :: rest => draftWord (.bool false) ['a', 'l', 's', 'e'] rest
    | some 'n' :: rest => draftWord .null ['u', 'l', 'l'] rest
    | g :: rest =>
      if g = some '-' ∨ (digitGlyph? g).isSome then draftNumber (g :: rest)
      else brokenOff (.missing .expectedValue)

/-- Drafts the items of an array up to its closing bracket; a comma must stand before every item
but the first. -/
def draftItems : (fuel : Nat) → (first : Bool) → List Glyph →
    List Draft × Option Flaw × Option (List Glyph)
  | 0, _, _ => ([], some (.plain .endOfList), none)
  | fuel + 1, first, gs =>
    match skipSpace gs with
    | [] => ([], some (.plain .endOfList), none)
    | some ']' :: rest => ([], none, some rest)
    | g :: rest =>
      if first then draftItem fuel (g :: rest)
      else if g = some ',' then
        match skipSpace rest with
        | some ']' :: _ => ([], some ⟨.trailingComma, .expectedValue⟩, none)
        | rest => draftItem fuel rest
      else ([], some (.plain .expectedListSeparator), none)

/-- Drafts an item of an array and the items behind it. -/
def draftItem : (fuel : Nat) → List Glyph → List Draft × Option Flaw × Option (List Glyph)
  | 0, _ => ([], some (.plain .endOfList), none)
  | fuel + 1, gs =>
    match draftValue fuel gs with
    | (v, none) => ([v], none, none)
    | (v, some rest) =>
      let (vs, stop, rest) := draftItems fuel false rest
      (v :: vs, stop, rest)

/-- Drafts the members of an object up to its closing brace; a comma must stand before every member
but the first. -/
def draftMembers : (fuel : Nat) → (first : Bool) → List Glyph →
    List (Draft × Draft) × Option Flaw × Option (List Glyph)
  | 0, _, _ => ([], some (.plain .endOfObject), none)
  | fuel + 1, first, gs =>
    match skipSpace gs with
    | [] => ([], some (.plain .endOfObject), none)
    | some '}' :: rest => ([], none, some rest)
    | g :: rest =>
      if first then
        if g = some '"' then draftMember fuel rest
        else ([((draftValue fuel (g :: rest)).1, .missing .keyNotString)], none, none)
      else if g = some ',' then
        match skipSpace rest with
        | [] => ([], some ⟨.endOfValue, .endOfObject⟩, none)
        | some '}' :: _ => ([], some ⟨.trailingComma, .keyNotString⟩, none)
        | some '"' :: rest => draftMember fuel rest
        | _ => ([], some (.plain .keyNotString), none)
      else ([], some (.plain .expectedObjectSeparator), none)

/-- Drafts a member of an object, from behind the opening quote of its key, and the members behind
it. -/
def draftMember : (fuel : Nat) → List Glyph →
    List (Draft × Draft) × Option Flaw × Option (List Glyph)
  | 0, _ => ([], some (.plain .endOfObject), none)
  | fuel + 1, gs =>
    match draftString gs with
    | (k, none) => ([(k, .null)], none, none)
    | (k, some rest) =>
      match skipSpace rest with
      | [] => ([(k, .missing .endOfObject)], none, none)
      | some ':' :: rest =>
        match draftValue fuel rest with
        | (v, none) => ([(k, v)], none, none)
        | (v, some rest) =>
          let (ms, stop, rest) := draftMembers fuel false rest
          ((k, v) :: ms, stop, rest)
      | _ => ([(k, .missing .expectedColon)], none, none)

end

namespace Draft

mutual

/-- Passes over a value without a look at numbers and strings beyond their form. -/
def skip : Draft → Except SyntaxFault Unit
  | .missing f => .error f
  | .word f => .error f
  | .number _ g => match g with | some g => .error g | none => .ok ()
  | .text _ g => match g with | some g => .error g | none => .ok ()
  | .null | .bool _ | .integer _ | .real _ | .string _ => .ok ()
  | .array items stop => do
    skipItems items
    match stop with | some flaw => .error flaw.skipped | none => .ok ()
  | .object members stop => do
    skipMembers members
    match stop with | some flaw => .error flaw.skipped | none => .ok ()

/-- Passes over the items of an array. -/
def skipItems : List Draft → Except SyntaxFault Unit
  | [] => .ok ()
  | v :: vs => do skip v; skipItems vs

/-- Passes over the members of an object. -/
def skipMembers : List (Draft × Draft) → Except SyntaxFault Unit
  | [] => .ok ()
  | (k, v) :: ms => do
    match k with
    | .string _ => .ok ()
    | .text _ none => .ok ()
    | .text _ (some g) => .error g
    | _ => .error .keyNotString
    skip v
    skipMembers ms

end

/-- The text of a key. -/
def key : Draft → Except SyntaxFault String
  | .string s => .ok s
  | .text f _ => .error f
  | _ => .error .keyNotString

mutual

/-- The value of a draft without faults, its arrays and objects nested less than `depth` deep. -/
def value : (depth : Nat) → Draft → Except SyntaxFault Json
  | _, .missing f => .error f
  | _, .word f => .error f
  | _, .number f _ => .error f
  | _, .text f _ => .error f
  | _, .null => .ok .null
  | _, .bool b => .ok (.bool b)
  | _, .integer n => .ok (.integer n)
  | _, .real x => .ok (.real x)
  | _, .string s => .ok (.string s)
  | depth, .array items stop =>
    if depth ≤ 1 then .error .tooDeep
    else do
      let vs ← values (depth - 1) items
      match stop with
      | some flaw => .error flaw.strict
      | none => return .array vs
  | depth, .object members stop =>
    if depth ≤ 1 then .error .tooDeep
    else do
      let ms ← memberValues (depth - 1) members
      match stop with
      | some flaw => .error flaw.strict
      | none => return .object ms

/-- The values of the items of an array. -/
def values : (depth : Nat) → List Draft → Except SyntaxFault (List Json)
  | _, [] => .ok []
  | depth, v :: vs => do
    let j ← value depth v
    let js ← values depth vs
    return j :: js

/-- The values of the members of an object. -/
def memberValues : (depth : Nat) → List (Draft × Draft) → Except SyntaxFault (List (String × Json))
  | _, [] => .ok []
  | depth, (k, v) :: ms => do
    let s ← key k
    let j ← value depth v
    let js ← memberValues depth ms
    return (s, j) :: js

end

/-- arrays and objects may be nested less than this deep -/
def maxDepth : Nat := 128

end Draft

/-- The draft of a text, and what stands behind its value. -/
structure Document where
  root : Draft
  rest : Option (List Glyph)

namespace Document

/-- the draft of a text -/
def ofGlyphs (gs : List Glyph) : Document :=
  let (root, rest) := draftValue (3 * gs.length + 3) gs
  ⟨root, rest⟩

/-- the draft of a text -/
def ofText (s : String) : Document := ofGlyphs (glyphs s)

/-- Nothing but white space stands behind the value. -/
def finish (d : Document) : Except SyntaxFault Unit :=
  match d.rest with
  | none => .ok ()
  | some gs => if skipSpace gs = [] then .ok () else .error .trailingCharacters

end Document

/-- The value of a whole text. -/
def read (gs : List Glyph) : Except SyntaxFault Json := do
  let d := Document.ofGlyphs gs
  let j ← d.root.value Draft.maxDepth
  d.finish
  return j

/-- The value of a whole text. -/
def readText (s : String) : Except SyntaxFault Json := read (glyphs s)

end MarketFeed.Json
