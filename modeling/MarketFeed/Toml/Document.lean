import MarketFeed.Toml.Entry

/-!
# TOML documents

A document is a list of sections. The first has no header; the header of any other names a table,
or an array to which the section adds a table.

## Main definitions

* `Toml.Section`, `Toml.readSections`: the sections of a document
* `Toml.place`: puts a section where its header says
* `Toml.read`: the table that a document is
-/

namespace MarketFeed.Toml

/-- A section: the header's path, and the entries below it. -/
structure Section where
  /-- the header adds to an array -/
  adds : Bool
  path : List String
  entries : List (String × Entry)

/-- A line ends: after a comment, or at once. -/
def endLine (ts : List Token) : Option (List Token) :=
  match skipBlank ts with
  | [] => some []
  | .comment :: ts | .newline :: ts => some ts
  | _ => none

/-- A header, from behind its first bracket. -/
def readHeader (ts : List Token) : Option (Section × List Token) := do
  let (adds, ts) := match ts with
    | .openBracket :: ts => (true, ts)
    | ts => (false, ts)
  let (path, ts) ← readKey true ts
  let ts ← match adds, ts with
    | false, .closeBracket :: ts => some ts
    | true, .closeBracket :: .closeBracket :: ts => some ts
    | _, _ => none
  return (⟨adds, path, []⟩, ← endLine ts)

/-- The sections of a document, the section in progress first. -/
def readSections : (fuel : Nat) → Section → List Token → Option (List Section)
  | 0, _, _ => none
  | n + 1, s, ts =>
    match ts.dropWhile Token.isFiller with
    | [] => some [s]
    | .openBracket :: ts => do
      let (header, ts) ← readHeader ts
      return s :: (← readSections n header ts)
    | ts => do
      let (key, ts) ← readKeyEquals ts
      let (v, ts) ← readValue (2 * ts.length + 1) ts
      let entries ← addEntry v key s.entries
      readSections n { s with entries } (← endLine ts)

/-- A member of a table to which further sections may add. -/
inductive Node
  | value (v : Toml)
  /-- `defined` tells whether it has had its own header -/
  | table (defined : Bool) (members : List (String × Node))
  | tables (items : List (List (String × Node)))

/-- Adds the members of a section to those of a table; none of them may be there already. -/
def mergeMembers (ms : List (String × Node)) (body : Members) : Option (List (String × Node)) :=
  if body.any fun m => (ms.lookup m.1).isSome then none
  else some (ms ++ body.map fun m => (m.1, .value m.2))

/-- Puts a section into the tables of a document, where the path of its header says. A path that
leads through an array goes on in its last table. -/
def place (adds : Bool) (body : Members) :
    (path : List String) → List (String × Node) → Option (List (String × Node))
  | [], _ => none
  | [k], ms =>
    let fresh := body.map fun m => (m.1, Node.value m.2)
    match ms.lookup k with
    | none => some (ms ++ [(k, if adds then .tables [fresh] else .table true fresh)])
    | some (.table false sub) =>
      if adds then none
      else (mergeMembers sub body).map fun sub => replaceMember k (.table true sub) ms
    | some (.tables items) =>
      if adds then some (replaceMember k (.tables (items ++ [fresh])) ms) else none
    | some _ => none
  | k :: ks, ms =>
    match ms.lookup k with
    | none => (place adds body ks []).map fun sub => ms ++ [(k, .table false sub)]
    | some (.table defined sub) =>
      (place adds body ks sub).map fun sub => replaceMember k (.table defined sub) ms
    | some (.tables items) =>
      match items.reverse with
      | [] => none
      | last :: earlier =>
        (place adds body ks last).map fun sub =>
          replaceMember k (.tables (sub :: earlier).reverse) ms
    | some (.value _) => none

mutual

/-- the value of a member -/
def Node.close : Node → Toml
  | .value v => v
  | .table _ ms => .table (closeMembers ms)
  | .tables items => .array (closeTables items)

/-- the values of members -/
def closeMembers : List (String × Node) → Members
  | [] => []
  | m :: ms => (m.1, m.2.close) :: closeMembers ms

/-- the tables of an array -/
def closeTables : List (List (String × Node)) → List Toml
  | [] => []
  | ms :: items => .table (closeMembers ms) :: closeTables items

end

/-- Puts one section after another into the tables of a document. -/
def assemble : List Section → List (String × Node) → Option (List (String × Node))
  | [], ms => some ms
  | s :: ss, ms => do
    let body ← closeEntries s.entries
    let ms ← if s.path = [] then mergeMembers ms body else place s.adds body s.path ms
    assemble ss ms

/-- The table that a document is, unless the document is malformed. -/
def read (text : String) : Option Members := do
  let ts ← lex text
  let sections ← readSections (ts.length + 1) ⟨false, [], []⟩ ts
  return closeMembers (← assemble sections [])

end MarketFeed.Toml
