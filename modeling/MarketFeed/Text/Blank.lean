/-!
# White space

The characters with the `White_Space` property, and texts without them at their ends.

## Main definitions

* `isBlank c`: `c` has the property
* `trim cs`: a text without the white space at its ends
-/

namespace MarketFeed.Text

/-- the first and last code points of the runs of white space -/
def blanks : List (Nat × Nat) :=
  [(0x9, 0xD), (0x20, 0x20), (0x85, 0x85), (0xA0, 0xA0), (0x1680, 0x1680), (0x2000, 0x200A),
   (0x2028, 0x2029), (0x202F, 0x202F), (0x205F, 0x205F), (0x3000, 0x3000)]

/-- A code point lies in one of the runs. -/
def inRuns (runs : List (Nat × Nat)) (n : Nat) : Bool := runs.any fun r => r.1 ≤ n && n ≤ r.2

/-- A character has the `White_Space` property. -/
def isBlank (c : Char) : Bool := inRuns blanks c.toNat

/-- A text without the white space at its start. -/
def trimStart (cs : List Char) : List Char := cs.dropWhile isBlank

/-- A text without the white space at its end. -/
def trimEnd (cs : List Char) : List Char := (cs.reverse.dropWhile isBlank).reverse

/-- A text without the white space at its ends. -/
def trim (cs : List Char) : List Char := trimEnd (trimStart cs)

end MarketFeed.Text
