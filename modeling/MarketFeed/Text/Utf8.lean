import MarketFeed.Text.Glyph

/-!
# Texts as bytes

A character is one to four bytes. The first byte tells how many follow and how the second is
bounded, so that no character has two forms and surrogates have none.

## Main definitions

* `Pending`: the bytes of a character that have been seen, while more are missing
* `decodeBytes`: the text of some bytes, or the place where they stop being one
* `glyphsOfBytes`: the text of some bytes with a gap for each byte that belongs to no character
* `encodeChar`: the bytes of a character
-/

namespace MarketFeed.Text

/-- A character of which some bytes have been seen. The next byte lies between `low` and `high`. -/
structure Pending where
  bits : Nat
  seen : Nat
  missing : Nat
  low : Nat
  high : Nat

/-- What a byte means. -/
inductive ByteMeaning
  | char (c : Char)
  | more (p : Pending)
  /-- a byte that does not belong here -/
  | stray

/-- The meaning of a byte between characters. -/
def firstByte (b : Nat) : ByteMeaning :=
  if b < 0x80 then .char (Char.ofNat b)
  else if b < 0xC2 then .stray
  else if b < 0xE0 then .more ⟨b - 0xC0, 1, 1, 0x80, 0xBF⟩
  else if b < 0xF0 then
    .more ⟨b - 0xE0, 1, 2, if b = 0xE0 then 0xA0 else 0x80, if b = 0xED then 0x9F else 0xBF⟩
  else if b < 0xF5 then
    .more ⟨b - 0xF0, 1, 3, if b = 0xF0 then 0x90 else 0x80, if b = 0xF4 then 0x8F else 0xBF⟩
  else .stray

/-- The meaning of a byte within a character. -/
def nextByte (p : Pending) (b : Nat) : ByteMeaning :=
  if p.low ≤ b ∧ b ≤ p.high then
    let bits := 64 * p.bits + (b - 0x80)
    if p.missing ≤ 1 then .char (Char.ofNat bits)
    else .more ⟨bits, p.seen + 1, p.missing - 1, 0x80, 0xBF⟩
  else .stray

/-- The place where bytes stop being a text. -/
inductive ByteFault
  /-- `size` bytes from `start` on begin no character -/
  | invalid (size start : Nat)
  /-- the bytes end within a character -/
  | incomplete (start : Nat)
  deriving DecidableEq

/-- the wording of a fault -/
def ByteFault.message : ByteFault → String
  | .invalid size start => s!"invalid utf-8 sequence of {size} bytes from index {start}"
  | .incomplete start => s!"incomplete utf-8 byte sequence from index {start}"

/-- Decodes bytes that follow a beginning of a character, or nothing. `start` is the number of
bytes before that character. -/
def decodeFrom (pending : Option Pending) (start : Nat) : List UInt8 → Except ByteFault (List Char)
  | [] => match pending with
    | none => .ok []
    | some _ => .error (.incomplete start)
  | b :: bs =>
    let seen := (pending.map Pending.seen).getD 0
    match pending.elim (firstByte b.toNat) (nextByte · b.toNat) with
    | .char c => do return c :: (← decodeFrom none (start + seen + 1) bs)
    | .more p => decodeFrom (some p) start bs
    | .stray => .error (.invalid (max seen 1) start)

/-- The text of some bytes. -/
def decodeBytes (bs : List UInt8) : Except ByteFault (List Char) := decodeFrom none 0 bs

/-- a gap for each byte of a broken character -/
def gaps (pending : Option Pending) : List Glyph :=
  List.replicate ((pending.map Pending.seen).getD 0) none

/-- Decodes bytes that follow a beginning of a character, or nothing, with gaps. -/
def glyphsFrom (pending : Option Pending) : List UInt8 → List Glyph
  | [] => gaps pending
  | b :: bs =>
    let fresh := fun _ : Unit => match firstByte b.toNat with
      | .char c => some c :: glyphsFrom none bs
      | .more p => glyphsFrom (some p) bs
      | .stray => none :: glyphsFrom none bs
    match pending with
    | none => fresh ()
    | some p => match nextByte p b.toNat with
      | .char c => some c :: glyphsFrom none bs
      | .more p => glyphsFrom (some p) bs
      | .stray => gaps (some p) ++ fresh ()

/-- The text of some bytes, with a gap for each byte that belongs to no character. -/
def glyphsOfBytes (bs : List UInt8) : List Glyph := glyphsFrom none bs

/-- The bytes of a character. -/
def encodeChar (c : Char) : List Nat :=
  let n := c.toNat
  if n < 0x80 then [n]
  else if n < 0x800 then [0xC0 + n / 64, 0x80 + n % 64]
  else if n < 0x10000 then [0xE0 + n / 4096, 0x80 + n / 64 % 64, 0x80 + n % 64]
  else [0xF0 + n / 262144, 0x80 + n / 4096 % 64, 0x80 + n / 64 % 64, 0x80 + n % 64]

end MarketFeed.Text
