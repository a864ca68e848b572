import MarketFeed.Text.Hex

/-!
# Tokens of TOML texts

## Main definitions

* `Toml.Token`: the tokens
* `Toml.lex`: the tokens of a text, unless it has a character that starts none
-/

namespace MarketFeed.Toml

open Text

/-- A token of a TOML text. -/
inductive Token
  /-- spaces and tabs -/
  | blank (s : String)
  | newline
  | comment
  | equals
  | period
  | comma
  | colon
  | plus
  | openBrace
  | closeBrace
  | openBracket
  | closeBracket
  /-- letters, digits, hyphens and underscores -/
  | word (s : String)
  | quoted (s : String) (multiline : Bool)
  deriving DecidableEq

/-- A character of a bare key or of a number. -/
def isWordChar (c : Char) : Bool :=
  ('a' ≤ c && c ≤ 'z') || ('A' ≤ c && c ≤ 'Z') || ('0' ≤ c && c ≤ '9') || c == '-' || c == '_'

/-- a space or a tab -/
def isBlankChar (c : Char) : Bool := c == ' ' || c == '\t'

/-- A character that may stand in a string as itself. -/
def isPlain (c : Char) : Bool := c == '\t' || (' ' ≤ c && c != '\x7f')

/-- a string token's content and the rest of the text -/
abbrev Content := Option (List Char × List Char)

/-- Puts characters in front of a content. -/
def Content.cons (cs : List Char) (r : Content) : Content := r.map fun (s, rest) => (cs ++ s, rest)

/-- The content of a literal string on one line. -/
def literalLine : List Char → Content
  | [] => none
  | '\'' :: rest => some ([], rest)
  | c :: rest => if isPlain c then Content.cons [c] (literalLine rest) else none

/-- The quotes behind a first one. Two or more of them end a string of several lines; up to two
further ones still belong to it. -/
def closing (quote : Char) (cs : List Char) : Option (List Char × List Char) :=
  let run := (cs.takeWhile (· == quote)).length
  if run < 2 then none
  else
    let kept := min (run - 2) 2
    some (List.replicate kept quote, cs.drop (2 + kept))

/-- The content of a literal string of several lines. -/
def literalLines : List Char → Content
  | [] => none
  | c :: rest =>
    if c = '\'' then
      match closing '\'' rest with
      | some r => some r
      | none => Content.cons [c] (literalLines rest)
    else if c = '\n' ∨ isPlain c then Content.cons [c] (literalLines rest)
    else none

/-- the character of a code point, unless it is a surrogate or too large -/
def codePoint? (n : Nat) : Option Char :=
  if h : n.isValidChar then some (Char.ofNatAux n h) else none

/-- the value of hexadecimal digits -/
def hexNumber? (ds : List Char) : Option Nat :=
  ds.foldlM (fun n d => (hexValue? d).map (16 * n + ·)) 0

/-- an escape of one letter -/
def shortEscape? : Char → Option Char
  | '"' => some '"'
  | '\\' => some '\\'
  | 'b' => some '\x08'
  | 'f' => some '\x0c'
  | 'n' => some '\n'
  | 'r' => some '\r'
  | 't' => some '\t'
  | _ => none

/-- What a backslash has begun in a string of several lines: blanks up to the end of the line, or
blanks and line ends up to something else, are left out. -/
inductive Fold
  | no
  | line
  | blanks
  deriving DecidableEq

/-- The content of a basic string. -/
def basic (multiline : Bool) : Fold → List Char → Content
  | _, [] => none
  | .line, c :: rest =>
    if isBlankChar c then basic multiline .line rest
    else if c = '\n' then basic multiline .blanks rest
    else none
  | _, '\\' :: rest =>
    match rest with
    | 'u' :: a :: b :: c :: d :: rest => do
      let ch ← (hexNumber? [a, b, c, d]).bind codePoint?
      Content.cons [ch] (basic multiline .no rest)
    | 'U' :: a :: b :: c :: d :: e :: f :: g :: h :: rest => do
      let ch ← (hexNumber? [a, b, c, d, e, f, g, h]).bind codePoint?
      Content.cons [ch] (basic multiline .no rest)
    | c :: rest =>
      match shortEscape? c with
      | some ch => Content.cons [ch] (basic multiline .no rest)
      | none =>
        if multiline ∧ c = '\n' then basic multiline .blanks rest
        else if multiline ∧ isBlankChar c then basic multiline .line rest
        else none
    | [] => none
  | fold, c :: rest =>
    if fold = .blanks ∧ (isBlankChar c ∨ c = '\n') then basic multiline .blanks rest
    else if c = '"' then
      if multiline then
        match closing '"' rest with
        | some r => some r
        | none => Content.cons [c] (basic multiline .no rest)
      else some ([], rest)
    else if (multiline ∧ c = '\n') ∨ isPlain c then Content.cons [c] (basic multiline .no rest)
    else none

/-- A line end right after the opening quotes does not count. -/
def dropFirstNewline : List Char → List Char
  | '\n' :: rest => rest
  | cs => cs

/-- The string behind an opening quote. -/
def lexString (quote : Char) (cs : List Char) : Option (Token × List Char) :=
  let token (multiline : Bool) (r : Content) : Option (Token × List Char) :=
    r.map fun (s, rest) => (.quoted (String.ofList s) multiline, rest)
  match cs with
  | c :: d :: rest =>
    if c = quote ∧ d = quote then
      let rest := dropFirstNewline rest
      token true (if quote = '\'' then literalLines rest else basic true .no rest)
    else if c = quote then some (.quoted "" false, d :: rest)
    else token false (if quote = '\'' then literalLine cs else basic false .no cs)
  | [c] => if c = quote then some (.quoted "" false, []) else none
  | [] => none

/-- The characters of a comment: all but control characters, tabs excepted. -/
def isCommentChar (c : Char) : Bool := c == '\t' || ' ' ≤ c

/-- The token at the front of a text. -/
def lexToken (c : Char) (cs : List Char) : Option (Token × List Char) :=
  match c with
  | '\n' => some (.newline, cs)
  | '#' => some (.comment, cs.dropWhile isCommentChar)
  | '=' => some (.equals, cs)
  | '.' => some (.period, cs)
  | ',' => some (.comma, cs)
  | ':' => some (.colon, cs)
  | '+' => some (.plus, cs)
  | '{' => some (.openBrace, cs)
  | '}' => some (.closeBrace, cs)
  | '[' => some (.openBracket, cs)
  | ']' => some (.closeBracket, cs)
  | '\'' => lexString '\'' cs
  | '"' => lexString '"' cs
  | c =>
    if isBlankChar c then
      some (.blank (String.ofList (c :: cs.takeWhile isBlankChar)), cs.dropWhile isBlankChar)
    else if isWordChar c then
      some (.word (String.ofList (c :: cs.takeWhile isWordChar)), cs.dropWhile isWordChar)
    else none

/-- The tokens of a text; every token takes a character. -/
def lexFrom : (fuel : Nat) → List Char → Option (List Token)
  | _, [] => some []
  | 0, _ => none
  | n + 1, c :: cs => do
    let (t, rest) ← lexToken c cs
    return t :: (← lexFrom n rest)

/-- A carriage return before a line feed does not count. -/
def foldLineEnds : List Char → List Char
  | '\r' :: '\n' :: rest => '\n' :: foldLineEnds rest
  | c :: rest => c :: foldLineEnds rest
  | [] => []

/-- A byte order mark at the front of a text does not count. -/
def dropByteOrderMark : List Char → List Char
  | '\ufeff' :: rest => rest
  | cs => cs

/-- The tokens of a text. -/
def lex (s : String) : Option (List Token) :=
  let cs := foldLineEnds (dropByteOrderMark s.toList)
  lexFrom cs.length cs

end MarketFeed.Toml
