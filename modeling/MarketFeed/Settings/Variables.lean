import MarketFeed.Text.Blank

/-!
# Variables of the environment

Variables come from the process, and from a file of lines that each set one. The file never
overrides a variable that is set, and its first bad line ends it.

## Main definitions

* `Variables`: the variables that are set
* `logicalLines`: the lines of a file, where a quoted text may run over several
* `readAssignment`: the variable that a line sets
* `Variables.withFile`: the variables after a file
-/

namespace MarketFeed

open Text

/-- The variables that are set, in the order in which they were set. -/
abbrev Variables := List (String × String)

/-- Whether the end of a line ends what it says. -/
inductive LineState
  | complete
  | escape
  /-- within single quotes -/
  | strong
  | strongEscape
  /-- within double quotes -/
  | weak
  | weakEscape
  | space
  deriving DecidableEq

namespace LineState

/-- what a character begins where nothing is open -/
def opened : Char → LineState
  | '\\' => .escape
  | '"' => .weak
  | '\'' => .strong
  | _ => .complete

/-- The state after a character. -/
def next (s : LineState) (c : Char) : LineState :=
  match s with
  | .space => opened c
  | .escape => .complete
  | .complete => if isBlank c ∧ c ≠ '\n' ∧ c ≠ '\r' then .space else opened c
  | .weak => match c with
    | '\\' => .weakEscape
    | '"' => .complete
    | _ => .weak
  | .weakEscape => .weak
  | .strong => match c with
    | '\\' => .strongEscape
    | '\'' => .complete
    | _ => .strong
  | .strongEscape => .strong

/-- The state after a line, or the line up to a comment: a hash mark behind a space. -/
def scan : LineState → List Char → LineState ⊕ List Char
  | s, [] => .inl s
  | s, c :: cs =>
    if s = .space ∧ c = '#' then .inr []
    else (scan (s.next c) cs).map id (c :: ·)

end LineState

/-- a line without its end -/
def chomp (cs : List Char) : List Char :=
  match cs.reverse with
  | '\n' :: '\r' :: rest => rest.reverse
  | '\n' :: rest => rest.reverse
  | _ => cs

/-- Joins lines of which the first ends within quotes. Lines that begin with a hash mark are
empty, and an end of the file within quotes is bad. -/
def logicalLines : (held : List Char) → LineState → List (List Char) → List (Option (List Char))
  | _, s, [] => if s = .complete then [] else [none]
  | held, s, l :: ls =>
    if (trimStart (held ++ l)).head? = some '#' then some [] :: logicalLines [] .complete ls
    else match s.scan l with
      | .inr part => some (held ++ part) :: logicalLines [] .complete ls
      | .inl .complete => some (chomp (held ++ l)) :: logicalLines [] .complete ls
      | .inl s => logicalLines (held ++ l) s ls

/-- The lines of a text, each with its end. -/
def linesOf : List Char → List (List Char)
  | [] => []
  | c :: cs =>
    if c = '\n' then [c] :: linesOf cs
    else match linesOf cs with
      | [] => [[c]]
      | l :: ls => (c :: l) :: ls

/-- The quotes a value is in the middle of. -/
inductive Quotes
  | no
  | strong
  | weak
  deriving DecidableEq

/-- A value that has been read in part. -/
structure ValueScan where
  /-- the value so far, the latest character first -/
  output : List Char
  quotes : Quotes
  escaped : Bool
  /-- the name of a variable to put in, the latest character first, and whether it is in braces -/
  name : Option (List Char × Bool)
  /-- only blanks and a comment may follow -/
  ended : Bool

namespace ValueScan

/-- nothing of a value has been read -/
def start : ValueScan := ⟨[], .no, false, none, false⟩

/-- one more character of the value -/
def push (v : ValueScan) (c : Char) : ValueScan := { v with output := c :: v.output }

/-- Puts in the value of the variable whose name has been read. -/
def substitute (find : String → String) (v : ValueScan) : ValueScan :=
  match v.name with
  | none => v
  | some (name, _) =>
    { v with
      output := (find (String.ofList name.reverse)).toList.reverse ++ v.output
      name := none }

/-- A character of a variable's name: an ASCII letter or digit, or anything outside ASCII that is
not white space. -/
def isNameChar (c : Char) : Bool := if c.toNat < 128 then c.isAlphanum else !isBlank c

/-- A character within the name of a variable. -/
def inName (find : String → String) (v : ValueScan) (name : List Char) (braces : Bool) (c : Char) :
    ValueScan :=
  if isNameChar c then { v with name := some (c :: name, braces) }
  else if braces then
    if c = '}' then v.substitute find else { v with name := some (c :: name, true) }
  else if c = '{' ∧ name = [] then { v with name := some ([], true) }
  else
    let v := v.substitute find
    if c = '$' then { v with name := some ([], false) } else v.push c

/-- an escaped character -/
def escape? : Char → Option Char
  | 'n' => some '\n'
  | c => if c = '\\' ∨ c = '\'' ∨ c = '"' ∨ c = '$' ∨ c = ' ' then some c else none

/-- A character outside quotes and names. -/
def plain (v : ValueScan) (c : Char) : ValueScan :=
  match c with
  | '\'' => { v with quotes := .strong }
  | '"' => { v with quotes := .weak }
  | '\\' => { v with escaped := true }
  | ' ' | '\t' => { v with ended := true }
  | c => v.push c

/-- A character within double quotes. -/
def weak (v : ValueScan) (c : Char) : ValueScan :=
  match c with
  | '"' => { v with quotes := .no }
  | '\\' => { v with escaped := true }
  | c => v.push c

/-- The value after a character. -/
def next (find : String → String) (v : ValueScan) (c : Char) : Option ValueScan :=
  if v.escaped then (escape? c).map fun c => { v.push c with escaped := false }
  else if v.quotes = .strong then
    some (if c = '\'' then { v with quotes := .no } else v.push c)
  else match v.name with
    | some (name, braces) => some (v.inName find name braces c)
    | none =>
      if c = '$' then some { v with name := some ([], false) }
      else some (if v.quotes = .weak then v.weak c else v.plain c)

/-- The value after more characters. Behind a blank outside quotes only a comment may follow. -/
def run (find : String → String) : ValueScan → List Char → Option ValueScan
  | v, [] => some v
  | v, c :: cs =>
    if v.ended then
      if c = ' ' ∨ c = '\t' then run find v cs
      else if c = '#' then some v
      else none
    else (v.next find c).bind fun v => run find v cs

/-- The value of a text, if all that it opens is closed. -/
def finish (find : String → String) (v : ValueScan) : Option String :=
  if v.quotes ≠ .no ∨ v.name.any (·.2) then none
  else some (String.ofList (v.substitute find).output.reverse)

end ValueScan

/-- The name of a variable at the front of a line. -/
def readName (cs : List Char) : Option (String × List Char) :=
  let isFirst := fun (c : Char) => c.isAlpha || c == '_'
  let isLater := fun (c : Char) => c.isAlphanum || c == '_' || c == '.'
  if cs.head?.any isFirst then some (String.ofList (cs.takeWhile isLater), cs.dropWhile isLater)
  else none

/-- Takes an equals sign off the front of a line. -/
def takeEquals : List Char → Option (List Char)
  | '=' :: cs => some cs
  | _ => none

/-- Takes a name and the equals sign behind it off the front of a line. -/
def readNameEquals (cs : List Char) : Option (String × List Char) := do
  let (name, rest) ← readName cs
  return (name, ← takeEquals (trimStart rest))

/-- The name that a line sets, which the word `export` may precede, and what follows the equals
sign. -/
def readTarget (cs : List Char) : Option (String × List Char) :=
  match readNameEquals cs with
  | some r => some r
  | none => do
    let (name, rest) ← readName cs
    if name = "export" then readNameEquals (trimStart rest) else none

/-- The variable that a line sets: nothing if the line is empty or a comment. `find` gives the
values of other variables. -/
def readAssignment (find : String → String) (line : List Char) :
    Option (Option (String × String)) :=
  let line := trim line
  if line.head?.all (· == '#') then some none
  else do
    let (name, rest) ← readTarget line
    let rest := trimStart rest
    if rest.head?.all (· == '#') then some (some (name, ""))
    else
      let value ← (← ValueScan.start.run find rest).finish find
      some (some (name, value))

/-- The variables after the lines of a file; `told` are the values that earlier lines give. -/
def Variables.withLines (vs : Variables) (told : List (String × String)) :
    List (Option (List Char)) → Variables
  | [] => vs
  | none :: _ => vs
  | some line :: ls =>
    let find := fun name => ((vs.lookup name).or (told.lookup name)).getD ""
    match readAssignment find line with
    | none => vs
    | some none => withLines vs told ls
    | some (some (name, value)) =>
      let vs := if (vs.lookup name).isSome then vs else vs ++ [(name, value)]
      withLines vs ((name, value) :: told) ls

/-- The variables after a file, which never overrides one. -/
def Variables.withFile (vs : Variables) (text : String) : Variables :=
  let cs := match text.toList with
    | '\ufeff' :: cs => cs
    | cs => cs
  vs.withLines [] (logicalLines [] .complete (linesOf cs))

end MarketFeed
