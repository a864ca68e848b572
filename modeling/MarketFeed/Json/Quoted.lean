import MarketFeed.Json.Number
import MarketFeed.Text.Hex

/-!
# Strings in JSON texts

## Main definitions

* `Json.readString`: the text of a string, from behind its opening quote
* `Json.skipString`: the end of a string whose text is not wanted
* `Json.stringChars`: a string as JSON text
-/

namespace MarketFeed.Json

open Text

/-- the value of four hexadecimal digits -/
def hex4? (a b c d : Glyph) : Option Nat := do
  let a ← hexValue? (← a)
  let b ← hexValue? (← b)
  let c ← hexValue? (← c)
  let d ← hexValue? (← d)
  return ((a * 16 + b) * 16 + c) * 16 + d

/-- The first half of a surrogate pair. -/
def isHighSurrogate (n : Nat) : Bool := 0xD800 ≤ n && n ≤ 0xDBFF

/-- The second half of a surrogate pair. -/
def isLowSurrogate (n : Nat) : Bool := 0xDC00 ≤ n && n ≤ 0xDFFF

/-- the character a surrogate pair stands for -/
def surrogatePair (high low : Nat) : Char :=
  Char.ofNat ((high - 0xD800) * 0x400 + (low - 0xDC00) + 0x10000)

/-- the character a one-letter escape stands for -/
def escapedChar? : Char → Option Char
  | '"' => some '"'
  | '\\' => some '\\'
  | '/' => some '/'
  | 'b' => some '\x08'
  | 'f' => some '\x0c'
  | 'n' => some '\n'
  | 'r' => some '\r'
  | 't' => some '\t'
  | _ => none

/-- the length of a glyph in bytes -/
def glyphSize : Glyph → Nat
  | some c => c.utf8Size
  | none => 1

/-- The fault of a code point escape followed by fewer than four glyphs: the text ends unless they
make up four bytes. -/
def shortEscape (gs : List Glyph) : SyntaxFault :=
  if gs.foldl (fun n g => n + glyphSize g) 0 < 4 then .endOfString else .invalidEscape

/-- The fault of the first half of a surrogate pair that no second half follows. -/
def afterHighSurrogate : List Glyph → SyntaxFault
  | [] => .endOfString
  | [some '\\'] => .endOfString
  | some '\\' :: some 'u' :: gs => shortEscape gs
  | _ => .unpairedSurrogate

/-- Puts a glyph in front of a string that was read. -/
def consGlyph (g : Glyph) (r : Except SyntaxFault (List Glyph × List Glyph)) :
    Except SyntaxFault (List Glyph × List Glyph) :=
  r.map fun (gs, rest) => (g :: gs, rest)

/-- The glyphs of a string up to its closing quote, and the rest of the text. -/
def readGlyphs : List Glyph → Except SyntaxFault (List Glyph × List Glyph)
  | [] => .error .endOfString
  | some '"' :: rest => .ok ([], rest)
  | some '\\' :: some 'u' :: a :: b :: c :: d :: rest =>
    match hex4? a b c d with
    | none => .error .invalidEscape
    | some n =>
      if isLowSurrogate n then .error .loneSurrogate
      else if isHighSurrogate n then
        match rest with
        | some '\\' :: some 'u' :: e :: f :: g :: h :: rest =>
          match hex4? e f g h with
          | none => .error .invalidEscape
          | some m =>
            if isLowSurrogate m then consGlyph (some (surrogatePair n m)) (readGlyphs rest)
            else .error .loneSurrogate
        | rest => .error (afterHighSurrogate rest)
      else consGlyph (some (Char.ofNat n)) (readGlyphs rest)
  | some '\\' :: some 'u' :: rest => .error (shortEscape rest)
  | [some '\\'] => .error .endOfString
  | some '\\' :: none :: _ => .error .invalidEscape
  | some '\\' :: some c :: rest =>
    match escapedChar? c with
    | some c => consGlyph (some c) (readGlyphs rest)
    | none => .error .invalidEscape
  | some c :: rest =>
    if c < ' ' then .error .controlCharacter else consGlyph (some c) (readGlyphs rest)
  | none :: rest => consGlyph none (readGlyphs rest)

/-- Reads a string from behind its opening quote: its text and the rest. Bytes that are no
characters are noticed at its end. -/
def readString (gs : List Glyph) : Except SyntaxFault (String × List Glyph) := do
  let (content, rest) ← readGlyphs gs
  match content.mapM id with
  | some cs => return (String.ofList cs, rest)
  | none => .error .invalidCodePoint

/-- Skips a string from behind its opening quote. Code point escapes need four digits but no
second half. -/
def skipString : List Glyph → Except SyntaxFault (List Glyph)
  | [] => .error .endOfString
  | some '"' :: rest => .ok rest
  | some '\\' :: some 'u' :: a :: b :: c :: d :: rest =>
    if (hex4? a b c d).isSome then skipString rest else .error .invalidEscape
  | some '\\' :: some 'u' :: rest => .error (shortEscape rest)
  | [some '\\'] => .error .endOfString
  | some '\\' :: none :: _ => .error .invalidEscape
  | some '\\' :: some c :: rest =>
    if (escapedChar? c).isSome then skipString rest else .error .invalidEscape
  | some c :: rest => if c < ' ' then .error .controlCharacter else skipString rest
  | none :: rest => skipString rest

/-- A character of a string as JSON text: quotes, backslashes and control characters are escaped,
everything else stands for itself. -/
def stringChar (c : Char) : List Char :=
  match c with
  | '"' => ['\\', '"']
  | '\\' => ['\\', '\\']
  | '\x08' => ['\\', 'b']
  | '\x0c' => ['\\', 'f']
  | '\n' => ['\\', 'n']
  | '\r' => ['\\', 'r']
  | '\t' => ['\\', 't']
  | c =>
    if c < ' ' then
      ['\\', 'u', '0', '0', Nat.digitChar (c.toNat / 16), Nat.digitChar (c.toNat % 16)]
    else [c]

/-- A string as JSON text. -/
def stringChars (s : String) : List Char := '"' :: s.toList.flatMap stringChar ++ ['"']

end MarketFeed.Json
