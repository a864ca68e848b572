import MarketFeed.Text.Blank
import MarketFeed.Text.UpperCase

/-!
# Lists of products

## Main definitions

* `splitPieces`: the pieces between commas
* `readPairs`: the products that a text lists
-/

namespace MarketFeed

open Text

/-- The pieces of a text between commas. -/
def splitPieces : List Char → List (List Char)
  | [] => [[]]
  | c :: cs =>
    if c = ',' then [] :: splitPieces cs
    else match splitPieces cs with
      | [] => [[c]]
      | p :: ps => (c :: p) :: ps

/-- The products that a text lists, in upper case. Blank pieces do not count, and a text without
others lists nothing. -/
def readPairs (text : String) : Option (List String) :=
  let pieces := (splitPieces text.toList).map fun p => upperCaseText (trim p)
  match pieces.filter (· ≠ []) with
  | [] => none
  | ps => some (ps.map String.ofList)

end MarketFeed
