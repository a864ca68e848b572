import MarketFeed.Toml.Date
import MarketFeed.Toml.Number

/-!
# Entries of TOML tables

An entry is a key, perhaps of several parts, and a value. Keys that share their first parts make
tables of their own.

## Main definitions

* `Toml.readKey`: a key and what follows it
* `Toml.readValue`: a value and what follows it
* `Toml.Entry`, `Toml.addEntry`: the entries of a table under construction
* `Toml.closeEntries`: the table they make, if no key is repeated
-/

namespace MarketFeed.Toml

/-- A part of a table under construction. -/
inductive Entry
  | value (v : Toml)
  /-- a table that keys of several parts have made -/
  | dotted (members : List (String × Entry))

/-- Replaces the first member with a key. -/
def replaceMember {α : Type} (k : String) (a : α) : List (String × α) → List (String × α)
  | [] => []
  | m :: ms => if m.1 = k then (k, a) :: ms else m :: replaceMember k a ms

/-- Adds an entry to a table under construction. A key of several parts goes into the table that
other such keys have made, and into no other. -/
def addEntry (v : Toml) :
    (key : List String) → List (String × Entry) → Option (List (String × Entry))
  | [], _ => none
  | [k], es => some (es ++ [(k, .value v)])
  | k :: ks, es =>
    match es.lookup k with
    | none => (addEntry v ks []).map fun sub => es ++ [(k, .dotted sub)]
    | some (.dotted sub) => (addEntry v ks sub).map fun sub => replaceMember k (.dotted sub) es
    | some (.value _) => none

mutual

/-- the value of an entry -/
def closeEntry : Entry → Option Toml
  | .value v => some v
  | .dotted es => (closeEntries es).map .table

/-- The table that entries make, if no key is repeated. -/
def closeEntries : List (String × Entry) → Option Members
  | [] => some []
  | e :: es => do
    let v ← closeEntry e.2
    let ms ← closeEntries es
    if (ms.lookup e.1).isSome then none else some ((e.1, v) :: ms)

end

/-- a token that can be a part of a key -/
def Token.key? : Token → Option String
  | .word w => some w
  | .quoted s false => some s
  | _ => none

/-- Takes the parts of a key, with blanks around them, off the front of some tokens. -/
def readKey : (wanted : Bool) → List Token → Option (List String × List Token)
  | wanted, [] => if wanted then none else some ([], [])
  | wanted, t :: ts =>
    match t with
    | .blank _ => readKey wanted ts
    | .period => if wanted then none else readKey true ts
    | t =>
      if wanted then do
        let k ← t.key?
        let (ks, ts) ← readKey false ts
        return (k :: ks, ts)
      else some ([], t :: ts)

/-- a blank at the front of some tokens does not count -/
def skipBlank : List Token → List Token
  | .blank _ :: ts => ts
  | ts => ts

/-- A token that may stand between the items of an array, and between lines. -/
def Token.isFiller : Token → Bool
  | .blank _ | .newline | .comment => true
  | _ => false

/-- Takes a key and the equals sign behind it off the front of some tokens. -/
def readKeyEquals (ts : List Token) : Option (List String × List Token) := do
  let (key, ts) ← readKey true ts
  match ts with
  | .equals :: ts => some (key, skipBlank ts)
  | _ => none

/-- A word has the form of a date. -/
def looksLikeDate (w : String) : Bool :=
  let cs := w.toList
  let exponent := fun (e : Char) => (cs.zip cs.tail).contains (e, '-')
  cs.contains 'T' || cs.contains 't' ||
    ((cs.drop 1).contains '-' && !exponent 'e' && !exponent 'E')

/-- The value that a word begins. -/
def readWord (w : String) (ts : List Token) : Option (Toml × List Token) :=
  let digitOrMinus := fun (c : Char) => c == '-' || ('0' ≤ c && c ≤ '9')
  match w with
  | "true" => some (.bool true, ts)
  | "false" => some (.bool false, ts)
  | w =>
    if w = "inf" ∨ w = "nan" ∨ w.toList.head?.any digitOrMinus then
      if looksLikeDate w then readDate w false ts
      else match ts with
        | .colon :: ts => readDate w true ts
        | ts => readNumber w ts
    else none

mutual

/-- Takes a value off the front of some tokens. -/
def readValue : (fuel : Nat) → List Token → Option (Toml × List Token)
  | 0, _ => none
  | n + 1, ts =>
    match ts with
    | .quoted s _ :: ts => some (.string s, ts)
    | .word w :: ts => readWord w ts
    | .plus :: .word w :: ts => readNumber w ts
    | .openBrace :: ts =>
      match skipBlank ts with
      | .closeBrace :: ts => some (.table [], ts)
      | ts => readInline n [] ts
    | .openBracket :: ts => (readItems n ts).map fun (vs, ts) => (.array vs, ts)
    | _ => none

/-- Takes the items of an array, and the bracket that closes it, off the front of some tokens. -/
def readItems : (fuel : Nat) → List Token → Option (List Toml × List Token)
  | 0, _ => none
  | n + 1, ts =>
    match ts.dropWhile Token.isFiller with
    | .closeBracket :: ts => some ([], ts)
    | ts => do
      let (v, ts) ← readValue n ts
      match ts.dropWhile Token.isFiller with
      | .comma :: ts => do
        let (vs, ts) ← readItems n ts
        return (v :: vs, ts)
      | .closeBracket :: ts => some ([v], ts)
      | _ => none

/-- Takes the entries of a table on one line, and the brace that closes it, off the front of some
tokens. -/
def readInline : (fuel : Nat) → List (String × Entry) → List Token → Option (Toml × List Token)
  | 0, _, _ => none
  | n + 1, es, ts => do
    let (key, ts) ← readKeyEquals ts
    let (v, ts) ← readValue n ts
    let es ← addEntry v key es
    match skipBlank ts with
    | .closeBrace :: ts => return (.table (← closeEntries es), ts)
    | .comma :: ts => readInline n es (skipBlank ts)
    | _ => none

end

end MarketFeed.Toml
