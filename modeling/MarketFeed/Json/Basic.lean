import MarketFeed.Binary64.Basic

/-!
# JSON values

A value keeps the members of an object in the order of the text, repeated keys included. What a
repeated key means is decided where an object is used: `settled` takes the last value of each key
and orders the keys.

## Main definitions

* `Json`: the values
* `settled`: the members of an object without repetition, in key order
* `lookup?`: the last value of a key
-/

namespace MarketFeed

/-- A JSON value. Integers that fit 64 bits are exact, every other number is a double. -/
inductive Json
  | null
  | bool (b : Bool)
  | integer (n : Int)
  | real (x : Binary64)
  | string (s : String)
  | array (items : List Json)
  | object (members : List (String × Json))

namespace Json

instance : Inhabited Json := ⟨.null⟩

/-- Puts a member into a list ordered by keys, in place of a member with its key. -/
def insertMember {α : Type} (k : String) (v : α) : List (String × α) → List (String × α)
  | [] => [(k, v)]
  | (k', v') :: ms =>
    if k < k' then (k, v) :: (k', v') :: ms
    else if k = k' then (k, v) :: ms
    else (k', v') :: insertMember k v ms

/-- The members of an object in the order of their keys; of a repeated key the last value
stays. -/
def settled {α : Type} (ms : List (String × α)) : List (String × α) :=
  ms.foldl (fun acc m => insertMember m.1 m.2 acc) []

/-- The last value of a key. -/
def lookup? {α : Type} (k : String) (ms : List (String × α)) : Option α :=
  (ms.reverse.find? (fun m => m.1 == k)).map Prod.snd

/-- The last value of a key in an object. -/
def member? (k : String) : Json → Option Json
  | .object ms => lookup? k ms
  | _ => none

/-- the text of a string value -/
def string? : Json → Option String
  | .string s => some s
  | _ => none

end Json

end MarketFeed
