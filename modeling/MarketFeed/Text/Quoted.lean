import MarketFeed.Text.Unprintable

/-!
# Quoted text

A text between double quotes, with everything that would not show escaped.

## Main definitions

* `quotedChar c`: a character inside the quotes
* `quoted s`: the quoted text
-/

namespace MarketFeed.Text

/-- A character inside double quotes: quotes and backslashes are escaped, the common control
characters have letters, and a character without a shape of its own is written by its code
point. -/
def quotedChar (c : Char) : List Char :=
  match c with
  | '\x00' => ['\\', '0']
  | '\t' => ['\\', 't']
  | '\n' => ['\\', 'n']
  | '\r' => ['\\', 'r']
  | '"' => ['\\', '"']
  | '\\' => ['\\', '\\']
  | c =>
    if isUnprintable c then ['\\', 'u', '\x7b'] ++ Nat.toDigits 16 c.toNat ++ ['\x7d'] else [c]

/-- A text between double quotes. -/
def quoted (s : String) : String :=
  String.ofList (['"'] ++ s.toList.flatMap quotedChar ++ ['"'])

end MarketFeed.Text
