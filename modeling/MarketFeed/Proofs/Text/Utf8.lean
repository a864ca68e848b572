import Mathlib.Data.List.Basic
import MarketFeed.Decimal.Overflow
import MarketFeed.Text.Utf8

/-!
# Texts and their bytes

The decoder takes bytes one at a time and knows only what is still missing of a character. Bytes
that bring it from one character to the next are the form of that character, and a character has no
other: the bounds of the second byte leave out the longer forms and the surrogates. So the decoder
takes exactly the bytes of texts, and gives the text back.

## Main definitions

* `bytesOf`: the bytes of a text
* `Completes c pending bs`: the bytes bring a character to its end

## Main results

* `completes_iff`: only its form brings a character to its end
* `decodeFrom_eq_ok_iff`, `decodeBytes_eq_ok_iff`: bytes are a text if they are the bytes of one
-/

namespace MarketFeed.Text

variable {c : Char} {cs : List Char} {pending : Option Pending} {p : Pending} {start : ℕ}
  {b b₀ b₁ b₂ b₃ : UInt8} {bs bs₁ bs₂ : List UInt8}

/-- the bytes of a text -/
def bytesOf (s : String) : List UInt8 := s.toUTF8.data.toList

theorem bytesOf_ofList (cs : List Char) :
    bytesOf (String.ofList cs) = cs.flatMap String.utf8EncodeChar := by
  rw [bytesOf, String.toUTF8_eq_toByteArray, String.toByteArray_ofList, List.utf8Encode,
    List.data_toByteArray]

/-! ## From one character to the next -/

/-- what a byte means, be it within a character or between two -/
def meaningOf (pending : Option Pending) (b : UInt8) : ByteMeaning :=
  pending.elim (firstByte b.toNat) (nextByte · b.toNat)

/-- The bytes bring a character, of which some may have been seen, to its end. -/
def Completes (c : Char) (pending : Option Pending) : List UInt8 → Prop
  | [] => False
  | b :: bs => match meaningOf pending b with
    | .char c' => c' = c ∧ bs = []
    | .more p => Completes c (some p) bs
    | .stray => False

theorem decodeFrom_cons (pending : Option Pending) (start : ℕ) (b : UInt8) (bs : List UInt8) :
    decodeFrom pending start (b :: bs) =
      match meaningOf pending b with
      | .char c => do
        return c :: (← decodeFrom none (start + (pending.map Pending.seen).getD 0 + 1) bs)
      | .more p => decodeFrom (some p) start bs
      | .stray => .error (.invalid (max ((pending.map Pending.seen).getD 0) 1) start) := rfl

/-- A character is decoded from the bytes that bring it to its end. -/
theorem decodeFrom_append (h : Completes c pending bs₁)
    (hrest : ∀ start, decodeFrom none start bs₂ = .ok cs) (start : ℕ) :
    decodeFrom pending start (bs₁ ++ bs₂) = .ok (c :: cs) := by
  induction bs₁ generalizing pending with
  | nil => exact h.elim
  | cons b bs₁ ih =>
    rw [List.cons_append, decodeFrom_cons]
    rw [Completes] at h
    split at h
    next =>
      obtain ⟨rfl, rfl⟩ := h
      simp only [List.nil_append, hrest]
      rfl
    next => exact ih h
    next => exact h.elim

/-- What is decoded is nothing, or a character that is brought to its end and what is decoded behind
it. -/
theorem exists_of_decodeFrom (h : decodeFrom pending start bs = .ok cs) :
    (bs = [] ∧ cs = []) ∨ ∃ c cs' bs₁ bs₂ start', cs = c :: cs' ∧ bs = bs₁ ++ bs₂ ∧
      Completes c pending bs₁ ∧ decodeFrom none start' bs₂ = .ok cs' := by
  induction bs generalizing pending with
  | nil =>
    cases pending with
    | none => exact .inl ⟨rfl, (Except.ok.inj h).symm⟩
    | some p => exact nomatch h
  | cons b bs ih =>
    rw [decodeFrom_cons] at h
    split at h
    next c hmeaning =>
      obtain ⟨cs', hrest, hcs⟩ := bind_eq_ok_iff.mp h
      refine .inr ⟨c, cs', [b], bs, _, (Except.ok.inj hcs).symm, rfl, ?_, hrest⟩
      simp [Completes, hmeaning]
    next p hmeaning =>
      rcases ih h with ⟨rfl, rfl⟩ | ⟨c, cs', bs₁, bs₂, start', hcs, rfl, hcompletes, hrest⟩
      · exact nomatch h
      · refine .inr ⟨c, cs', b :: bs₁, bs₂, start', hcs, rfl, ?_, hrest⟩
        simpa [Completes, hmeaning] using hcompletes
    next => exact nomatch h

/-! ## Forms of characters -/

theorem toNat_ofNat {n : ℕ} (h : n.isValidChar) : (Char.ofNat n).val.toNat = n := by
  rw [Char.ofNat, dif_pos h]
  rfl

theorem ofNat_eq_of_toNat {n : ℕ} (h : n = b.toNat) : UInt8.ofNat n = b := by
  rw [h, UInt8.ofNat_toNat]

theorem utf8EncodeChar_one (h : b.toNat < 0x80) :
    String.utf8EncodeChar (Char.ofNat b.toNat) = [b] := by
  rw [String.utf8EncodeChar, toNat_ofNat (.inl (by omega))]
  rw [if_pos (by omega), UInt8.ofNat_toNat]

theorem utf8EncodeChar_two (h₀ : 0xC2 ≤ b₀.toNat ∧ b₀.toNat < 0xE0)
    (h₁ : 0x80 ≤ b₁.toNat ∧ b₁.toNat ≤ 0xBF) :
    String.utf8EncodeChar (Char.ofNat (64 * (b₀.toNat - 0xC0) + (b₁.toNat - 0x80))) =
      [b₀, b₁] := by
  rw [String.utf8EncodeChar, toNat_ofNat (.inl (by omega))]
  rw [if_neg (by omega), if_pos (by omega), ofNat_eq_of_toNat (b := b₀) (by omega),
    ofNat_eq_of_toNat (b := b₁) (by omega)]

/-- The second of three bytes leaves out what fits two, and the surrogates. -/
theorem utf8EncodeChar_three (h₀ : 0xE0 ≤ b₀.toNat ∧ b₀.toNat < 0xF0)
    (h₁ : 0x80 ≤ b₁.toNat ∧ b₁.toNat ≤ 0xBF) (hlong : b₀.toNat = 0xE0 → 0xA0 ≤ b₁.toNat)
    (hsurrogate : b₀.toNat = 0xED → b₁.toNat ≤ 0x9F) (h₂ : 0x80 ≤ b₂.toNat ∧ b₂.toNat ≤ 0xBF) :
    String.utf8EncodeChar (Char.ofNat
      (64 * (64 * (b₀.toNat - 0xE0) + (b₁.toNat - 0x80)) + (b₂.toNat - 0x80))) =
        [b₀, b₁, b₂] := by
  have hvalid : (64 * (64 * (b₀.toNat - 0xE0) + (b₁.toNat - 0x80)) +
      (b₂.toNat - 0x80)).isValidChar := by
    simp only [Nat.isValidChar]
    omega
  rw [String.utf8EncodeChar, toNat_ofNat hvalid]
  rw [if_neg (by omega), if_neg (by omega), if_pos (by omega),
    ofNat_eq_of_toNat (b := b₀) (by omega), ofNat_eq_of_toNat (b := b₁) (by omega),
    ofNat_eq_of_toNat (b := b₂) (by omega)]

/-- The second of four bytes leaves out what fits three, and what is beyond the last character. -/
theorem utf8EncodeChar_four (h₀ : 0xF0 ≤ b₀.toNat ∧ b₀.toNat < 0xF5)
    (h₁ : 0x80 ≤ b₁.toNat ∧ b₁.toNat ≤ 0xBF) (hlong : b₀.toNat = 0xF0 → 0x90 ≤ b₁.toNat)
    (hlast : b₀.toNat = 0xF4 → b₁.toNat ≤ 0x8F) (h₂ : 0x80 ≤ b₂.toNat ∧ b₂.toNat ≤ 0xBF)
    (h₃ : 0x80 ≤ b₃.toNat ∧ b₃.toNat ≤ 0xBF) :
    String.utf8EncodeChar (Char.ofNat
      (64 * (64 * (64 * (b₀.toNat - 0xF0) + (b₁.toNat - 0x80)) + (b₂.toNat - 0x80)) +
        (b₃.toNat - 0x80))) = [b₀, b₁, b₂, b₃] := by
  have hvalid : (64 * (64 * (64 * (b₀.toNat - 0xF0) + (b₁.toNat - 0x80)) + (b₂.toNat - 0x80)) +
      (b₃.toNat - 0x80)).isValidChar := by
    simp only [Nat.isValidChar]
    omega
  rw [String.utf8EncodeChar, toNat_ofNat hvalid]
  rw [if_neg (by omega), if_neg (by omega), if_neg (by omega),
    ofNat_eq_of_toNat (b := b₀) (by omega), ofNat_eq_of_toNat (b := b₁) (by omega),
    ofNat_eq_of_toNat (b := b₂) (by omega), ofNat_eq_of_toNat (b := b₃) (by omega)]

/-! ## Only its form brings a character to its end -/

/-- The last byte of a character. -/
theorem completes_last {bits seen low high : ℕ} :
    Completes c (some ⟨bits, seen, 1, low, high⟩) bs ↔
      ∃ b, bs = [b] ∧ (low ≤ b.toNat ∧ b.toNat ≤ high) ∧
        Char.ofNat (64 * bits + (b.toNat - 0x80)) = c := by
  cases bs with
  | nil => simp [Completes]
  | cons b bs =>
    by_cases hb : low ≤ b.toNat ∧ b.toNat ≤ high
    · simp [Completes, meaningOf, nextByte, hb, and_comm]
    · simp [Completes, meaningOf, nextByte, hb]

/-- A byte of a character behind which others are missing. -/
theorem completes_more {bits seen missing low high : ℕ} :
    Completes c (some ⟨bits, seen, missing + 2, low, high⟩) bs ↔
      ∃ b bs', bs = b :: bs' ∧ (low ≤ b.toNat ∧ b.toNat ≤ high) ∧
        Completes c (some ⟨64 * bits + (b.toNat - 0x80), seen + 1, missing + 1, 0x80, 0xBF⟩)
          bs' := by
  cases bs with
  | nil => simp [Completes]
  | cons b bs =>
    by_cases hb : low ≤ b.toNat ∧ b.toNat ≤ high
    · simp [Completes, meaningOf, nextByte, hb]
    · simp [Completes, meaningOf, nextByte, hb]

/-- The first byte tells how many are missing. -/
theorem completes_first :
    Completes c none (b :: bs) ↔
      (b.toNat < 0x80 ∧ Char.ofNat b.toNat = c ∧ bs = []) ∨
      ((0xC2 ≤ b.toNat ∧ b.toNat < 0xE0) ∧
        Completes c (some ⟨b.toNat - 0xC0, 1, 1, 0x80, 0xBF⟩) bs) ∨
      ((0xE0 ≤ b.toNat ∧ b.toNat < 0xF0) ∧
        Completes c (some ⟨b.toNat - 0xE0, 1, 2, if b.toNat = 0xE0 then 0xA0 else 0x80,
          if b.toNat = 0xED then 0x9F else 0xBF⟩) bs) ∨
      ((0xF0 ≤ b.toNat ∧ b.toNat < 0xF5) ∧
        Completes c (some ⟨b.toNat - 0xF0, 1, 3, if b.toNat = 0xF0 then 0x90 else 0x80,
          if b.toNat = 0xF4 then 0x8F else 0xBF⟩) bs) := by
  simp only [Completes, meaningOf, Option.elim_none, firstByte]
  by_cases hone : b.toNat < 0x80
  · simp [hone, show ¬ 0xC2 ≤ b.toNat by omega, show ¬ 0xE0 ≤ b.toNat by omega,
      show ¬ 0xF0 ≤ b.toNat by omega]
  by_cases hstray : b.toNat < 0xC2
  · simp [hone, hstray, show ¬ 0xC2 ≤ b.toNat by omega, show ¬ 0xE0 ≤ b.toNat by omega,
      show ¬ 0xF0 ≤ b.toNat by omega]
  by_cases htwo : b.toNat < 0xE0
  · simp [hone, hstray, htwo, show 0xC2 ≤ b.toNat by omega, show ¬ 0xE0 ≤ b.toNat by omega,
      show ¬ 0xF0 ≤ b.toNat by omega]
  by_cases hthree : b.toNat < 0xF0
  · simp [hone, hstray, htwo, hthree, show 0xE0 ≤ b.toNat by omega,
      show ¬ 0xF0 ≤ b.toNat by omega]
  by_cases hfour : b.toNat < 0xF5
  · simp [hone, hstray, htwo, hthree, hfour, show 0xF0 ≤ b.toNat by omega]
  · simp [hone, hstray, htwo, hthree, hfour]

/-- Bytes that bring a character to its end from its beginning are its form. -/
theorem eq_utf8EncodeChar_of_completes (h : Completes c none bs) :
    bs = String.utf8EncodeChar c := by
  cases bs with
  | nil => exact h.elim
  | cons b₀ bs =>
    rcases completes_first.mp h with ⟨h₀, rfl, rfl⟩ | ⟨h₀, h⟩ | ⟨h₀, h⟩ | ⟨h₀, h⟩
    · exact (utf8EncodeChar_one h₀).symm
    · obtain ⟨b₁, rfl, h₁, rfl⟩ := completes_last.mp h
      exact (utf8EncodeChar_two h₀ h₁).symm
    · obtain ⟨b₁, _, rfl, h₁, h⟩ := completes_more.mp h
      obtain ⟨b₂, rfl, h₂, rfl⟩ := completes_last.mp h
      refine (utf8EncodeChar_three h₀ ?_ ?_ ?_ h₂).symm
      all_goals split at h₁ <;> split at h₁ <;> omega
    · obtain ⟨b₁, _, rfl, h₁, h⟩ := completes_more.mp h
      obtain ⟨b₂, _, rfl, h₂, h⟩ := completes_more.mp h
      obtain ⟨b₃, rfl, h₃, rfl⟩ := completes_last.mp h
      refine (utf8EncodeChar_four h₀ ?_ ?_ ?_ h₂ h₃).symm
      all_goals split at h₁ <;> split at h₁ <;> omega

/-- The form of a character brings it to its end. -/
theorem completes_utf8EncodeChar (c : Char) : Completes c none (String.utf8EncodeChar c) := by
  have hvalid : c.val.toNat.isValidChar := c.valid
  have hbyte {n : ℕ} (h : n < 256) : (UInt8.ofNat n).toNat = n := UInt8.toNat_ofNat_of_lt' h
  have hback {n : ℕ} (h : n = c.val.toNat) : Char.ofNat n = c := by rw [h]; exact c.ofNat_toNat
  simp only [Nat.isValidChar] at hvalid
  rw [String.utf8EncodeChar]
  split
  next hone =>
    have h₀ := hbyte (n := c.val.toNat) (by omega)
    exact completes_first.mpr (.inl ⟨by omega, hback h₀, rfl⟩)
  next hone =>
    have h₂ := hbyte (n := c.val.toNat % 0x40 + 0x80) (by omega)
    split
    next htwo =>
      have h₀ := hbyte (n := c.val.toNat / 64 % 0x20 + 0xc0) (by omega)
      refine completes_first.mpr (.inr (.inl ⟨by omega, ?_⟩))
      exact completes_last.mpr ⟨_, rfl, by omega, hback (by omega)⟩
    next htwo =>
      have h₁ := hbyte (n := c.val.toNat / 64 % 0x40 + 0x80) (by omega)
      split
      next hthree =>
        have h₀ := hbyte (n := c.val.toNat / 4096 % 0x10 + 0xe0) (by omega)
        refine completes_first.mpr (.inr (.inr (.inl ⟨by omega, ?_⟩)))
        refine completes_more.mpr ⟨_, _, rfl, ?_, ?_⟩
        · split <;> split <;> omega
        · exact completes_last.mpr ⟨_, rfl, by omega, hback (by omega)⟩
      next hthree =>
        have h₀ := hbyte (n := c.val.toNat / 262144 % 0x08 + 0xf0) (by omega)
        have h₃ := hbyte (n := c.val.toNat / 4096 % 0x40 + 0x80) (by omega)
        refine completes_first.mpr (.inr (.inr (.inr ⟨by omega, ?_⟩)))
        refine completes_more.mpr ⟨_, _, rfl, ?_, ?_⟩
        · split <;> split <;> omega
        refine completes_more.mpr ⟨_, _, rfl, by omega, ?_⟩
        exact completes_last.mpr ⟨_, rfl, by omega, hback (by omega)⟩

/-- **Only its form brings a character to its end.** -/
theorem completes_iff : Completes c none bs ↔ bs = String.utf8EncodeChar c :=
  ⟨eq_utf8EncodeChar_of_completes, fun h => h ▸ completes_utf8EncodeChar c⟩

/-! ## Whole texts -/

theorem decodeFrom_eq_ok_iff : decodeFrom none start bs = .ok cs ↔
    bs = cs.flatMap String.utf8EncodeChar := by
  induction cs generalizing start bs with
  | nil =>
    refine ⟨fun h => ?_, fun h => h ▸ rfl⟩
    rcases exists_of_decodeFrom h with ⟨rfl, -⟩ | ⟨c, cs', _, _, _, hcs, -⟩
    · rfl
    · exact nomatch hcs
  | cons c cs ih =>
    rw [List.flatMap_cons]
    refine ⟨fun h => ?_, fun h => ?_⟩
    · rcases exists_of_decodeFrom h with ⟨-, hcs⟩ | ⟨c', cs', bs₁, bs₂, _, hcs, rfl, hfirst, hrest⟩
      · exact nomatch hcs
      · obtain ⟨rfl, rfl⟩ := List.cons.inj hcs
        rw [completes_iff.mp hfirst, ih.mp hrest]
    · rw [h]
      exact decodeFrom_append (completes_utf8EncodeChar c) (fun _ => ih.mpr rfl) start

/-- **Bytes are decoded if and only if they are the bytes of a text**, and then as that text. -/
theorem decodeBytes_eq_ok_iff : decodeBytes bs = .ok cs ↔ bs = bytesOf (String.ofList cs) := by
  rw [decodeBytes, decodeFrom_eq_ok_iff, bytesOf_ofList]

end MarketFeed.Text
