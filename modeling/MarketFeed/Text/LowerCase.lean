/-!
# Lower case

Names and keywords are ASCII, so what matters of lower case is which characters become ASCII
letters: the capital ones, and the Kelvin sign.

## Main definitions

* `lowerCase`: the lower case of a character, as far as it is an ASCII letter
-/

namespace MarketFeed.Text

/-- The lower case of a character, as far as it is an ASCII letter. -/
def lowerCase (c : Char) : Char :=
  if 'A' ≤ c ∧ c ≤ 'Z' then Char.ofNat (c.toNat + 32)
  else if c = '\u212a' then 'k'
  else c

/-- The lower case of a text, as far as it is made of ASCII letters. -/
def lowerCaseText (s : String) : String := String.ofList (s.toList.map lowerCase)

end MarketFeed.Text
