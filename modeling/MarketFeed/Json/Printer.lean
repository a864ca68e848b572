import MarketFeed.Binary64.Shortest
import MarketFeed.Json.Quoted

/-!
# JSON values as text

The compact form: no white space, members in the order they stand in.

## Main definitions

* `Json.chars`, `Json.text`: the text of a value
-/

namespace MarketFeed.Json

/-- the characters of an integer -/
def integerChars (n : Int) : List Char :=
  (if n < 0 then ['-'] else []) ++ Text.digits n.natAbs

mutual

/-- The characters of a value. -/
def chars : Json → List Char
  | .null => ['n', 'u', 'l', 'l']
  | .bool true => ['t', 'r', 'u', 'e']
  | .bool false => ['f', 'a', 'l', 's', 'e']
  | .integer n => integerChars n
  | .real x => x.scientificText.toList
  | .string s => stringChars s
  | .array vs => '[' :: itemChars true vs ++ [']']
  | .object ms => '\x7b' :: memberChars true ms ++ ['\x7d']

/-- The characters of the items of an array, a comma before every item but the first. -/
def itemChars : (first : Bool) → List Json → List Char
  | _, [] => []
  | first, v :: vs => (if first then [] else [',']) ++ chars v ++ itemChars false vs

/-- The characters of the members of an object. -/
def memberChars : (first : Bool) → List (String × Json) → List Char
  | _, [] => []
  | first, (k, v) :: ms =>
    (if first then [] else [',']) ++ stringChars k ++ ':' :: chars v ++ memberChars false ms

end

/-- the text of a value -/
def text (j : Json) : String := String.ofList j.chars

end MarketFeed.Json
