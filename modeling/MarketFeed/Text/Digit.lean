/-!
# Decimal digits

Natural numbers and the runs of ASCII digits that write them.

## Main definitions

* `digitValue c`: the value of an ASCII digit
* `ofDigits ds`: the number a run of digits writes
* `digits n`: the shortest run of digits that writes `n`
* `padded width n`: the digits of `n`, filled with leading zeros
* `readNat? limit cs`: a text of digits alone, read below a limit
-/

namespace MarketFeed.Text

/-- An ASCII digit; no other script counts. -/
def isDigit (c : Char) : Bool := '0' ≤ c && c ≤ '9'

/-- the value of an ASCII digit -/
def digitValue (c : Char) : Nat := c.toNat - '0'.toNat

/-- the digit of a value below ten -/
def digit (n : Nat) : Char := Char.ofNat ('0'.toNat + n)

/-- The number a run of digits writes, the most significant digit first. -/
def ofDigits (ds : List Char) : Nat := ds.foldl (fun n c => 10 * n + digitValue c) 0

/-- The shortest run of digits that writes a number. -/
def digits (n : Nat) : List Char := Nat.toDigits 10 n

/-- The digits of a number, filled up with leading zeros to a width. -/
def padded (width n : Nat) : List Char :=
  List.replicate (width - (digits n).length) '0' ++ digits n

/-- Splits the digits off the front of a text. -/
def spanDigits (cs : List Char) : List Char × List Char := cs.span isDigit

/-- A text of one or more digits and nothing else, read as a number below `limit`. -/
def readNat? (limit : Nat) (cs : List Char) : Option Nat :=
  if cs ≠ [] ∧ cs.all isDigit ∧ ofDigits cs < limit then some (ofDigits cs) else none

/-- As `readNat?`, after at most one plus sign. -/
def readSigned? (limit : Nat) : List Char → Option Nat
  | '+' :: cs => readNat? limit cs
  | cs => readNat? limit cs

end MarketFeed.Text
