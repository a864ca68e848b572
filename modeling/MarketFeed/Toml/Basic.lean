import MarketFeed.Binary64.Basic

/-!
# TOML values

## Main definitions

* `Toml`: the values
* `Toml.Members`: the members of a table
-/

namespace MarketFeed

/-- A TOML value. A date is kept as its text. -/
inductive Toml
  | string (s : String)
  | integer (n : Int)
  | real (x : Binary64)
  | bool (b : Bool)
  | date (text : String)
  | array (items : List Toml)
  | table (members : List (String × Toml))

namespace Toml

instance : Inhabited Toml := ⟨.table []⟩

/-- The members of a table, in the order in which they were defined. -/
abbrev Members := List (String × Toml)

end Toml

end MarketFeed
