import MarketFeed.Decimal.Overflow
import MarketFeed.Proofs.Json.Text

/-!
# Integers of drafts

A number that does not fit 64 bits is read as a double, so the integers in the draft of a text fit.

## Main definitions

* `Draft.IntegersFit d`: all integers in a draft fit 64 bits

## Main results

* `integersFit_ofGlyphs`: the integers in the draft of a text fit
* `integersFit_value`: so do those in the value of such a draft
-/

namespace MarketFeed.Json

open Text

mutual

/-- All integers in a draft fit 64 bits. -/
def Draft.IntegersFit : Draft → Prop
  | .integer n => IntegerFits n
  | .array items _ => Draft.ItemsFit items
  | .object members _ => Draft.MembersFit members
  | .missing _ | .word _ | .number _ _ | .text _ _ | .null | .bool _ | .real _ | .string _ => True

/-- All integers in the items of an array fit. -/
def Draft.ItemsFit : List Draft → Prop
  | [] => True
  | v :: vs => v.IntegersFit ∧ Draft.ItemsFit vs

/-- All integers in the values of the members of an object fit. -/
def Draft.MembersFit : List (Draft × Draft) → Prop
  | [] => True
  | (_, v) :: ms => v.IntegersFit ∧ Draft.MembersFit ms

end

/-! ## Numbers -/

variable {negative : Bool} {m : Mantissa} {ds : List Char} {gs rest : List Glyph} {v : Json}

theorem integersFit_of_realNumber (h : realNumber negative m = .ok v) :
    (draftNumberValue v).IntegersFit := by
  unfold realNumber at h
  split at h
  next =>
    obtain rfl := Except.ok.inj h
    trivial
  next => exact nomatch h

theorem integersFit_of_withExponent {down : Bool} (h : withExponent negative m down ds = .ok v) :
    (draftNumberValue v).IntegersFit := by
  simp only [withExponent] at h
  split at h
  next =>
    split at h
    next => exact nomatch h
    next =>
      obtain rfl := Except.ok.inj h
      trivial
  next => exact integersFit_of_realNumber h

/-- A whole number that is kept as an integer fits. -/
theorem integersFit_of_wholeNumber (h : wholeNumber negative ds = .ok v) :
    (draftNumberValue v).IntegersFit := by
  unfold wholeNumber at h
  simp only [Nat.pow_eq] at h
  split at h
  next => exact integersFit_of_realNumber h
  next hfits =>
    split at h
    next =>
      obtain rfl := Except.ok.inj h
      show IntegerFits (ofDigits ds)
      constructor <;> omega
    next =>
      split at h
      next =>
        obtain rfl := Except.ok.inj h
        trivial
      next hinside =>
        obtain rfl := Except.ok.inj h
        show IntegerFits (-(ofDigits ds))
        constructor <;> omega

/-- An exponent makes a double of a number; without one the number is what its digits say. -/
theorem integersFit_of_readExponent {bare : Except SyntaxFault Json}
    (hbare : ∀ v, bare = .ok v → (draftNumberValue v).IntegersFit)
    (h : readExponent negative m bare gs = .ok (v, rest)) :
    (draftNumberValue v).IntegersFit := by
  unfold readExponent at h
  split at h
  case h_3 =>
    obtain ⟨v', hv', h⟩ := bind_eq_ok_iff.mp h
    obtain ⟨rfl, -⟩ := Prod.mk.inj (Except.ok.inj h)
    exact hbare v' hv'
  all_goals
    simp only at h
    split at h
    next => exact nomatch h
    next => exact nomatch h
    next =>
      obtain ⟨v', hv', h⟩ := bind_eq_ok_iff.mp h
      obtain ⟨rfl, -⟩ := Prod.mk.inj (Except.ok.inj h)
      exact integersFit_of_withExponent hv'

theorem integersFit_of_readFraction (h : readFraction negative ds gs = .ok (v, rest)) :
    (draftNumberValue v).IntegersFit := by
  unfold readFraction at h
  split at h
  next =>
    split at h
    next => exact nomatch h
    next => exact nomatch h
    next => exact integersFit_of_readExponent (fun _ => integersFit_of_realNumber) h
  next => exact integersFit_of_readExponent (fun _ => integersFit_of_wholeNumber) h

theorem integersFit_of_readMagnitude (h : readMagnitude negative gs = .ok (v, rest)) :
    (draftNumberValue v).IntegersFit := by
  unfold readMagnitude at h
  split at h
  next => exact nomatch h
  next => exact nomatch h
  next => exact nomatch h
  next => exact integersFit_of_readFraction h

theorem integersFit_of_readNumber (h : readNumber gs = .ok (v, rest)) :
    (draftNumberValue v).IntegersFit := by
  unfold readNumber at h
  split at h
  · exact integersFit_of_readMagnitude h
  · exact integersFit_of_readMagnitude h

theorem integersFit_draftNumber (gs : List Glyph) : (draftNumber gs).1.IntegersFit := by
  unfold draftNumber
  split
  next heq => exact integersFit_of_readNumber heq
  next => split <;> trivial

theorem integersFit_draftString (gs : List Glyph) : (draftString gs).1.IntegersFit := by
  unfold draftString
  split
  next => trivial
  next => split <;> trivial

theorem integersFit_draftWord {v : Draft} (h : v.IntegersFit) (letters : List Char)
    (gs : List Glyph) : (draftWord v letters gs).1.IntegersFit := by
  induction letters generalizing gs with
  | nil => exact h
  | cons c cs ih =>
    cases gs with
    | nil => trivial
    | cons g gs =>
      rw [draftWord]
      split
      · exact ih gs
      · trivial

/-! ## Texts -/

mutual

theorem integersFit_draftValue : ∀ (fuel : ℕ) (gs : List Glyph),
    (draftValue fuel gs).1.IntegersFit
  | 0, _ => trivial
  | fuel + 1, gs => by
    rw [draftValue]
    split
    next => trivial
    next rest _ => exact integersFit_draftString rest
    next rest _ => exact itemsFit_draftItems fuel true rest
    next rest _ => exact membersFit_draftMembers fuel true rest
    next => exact integersFit_draftWord (show Draft.IntegersFit (.bool true) from trivial) _ _
    next => exact integersFit_draftWord (show Draft.IntegersFit (.bool false) from trivial) _ _
    next => exact integersFit_draftWord (show Draft.IntegersFit .null from trivial) _ _
    next =>
      split
      · exact integersFit_draftNumber _
      · trivial

theorem itemsFit_draftItems : ∀ (fuel : ℕ) (first : Bool) (gs : List Glyph),
    Draft.ItemsFit (draftItems fuel first gs).1
  | 0, _, _ => trivial
  | fuel + 1, first, gs => by
    rw [draftItems]
    split
    next => trivial
    next => trivial
    next g rest _ _ =>
      split
      · exact itemsFit_draftItem fuel (g :: rest)
      · split
        · split
          · trivial
          · exact itemsFit_draftItem fuel _
        · trivial

theorem itemsFit_draftItem : ∀ (fuel : ℕ) (gs : List Glyph),
    Draft.ItemsFit (draftItem fuel gs).1
  | 0, _ => trivial
  | fuel + 1, gs => by
    have hv := integersFit_draftValue fuel gs
    rw [draftItem]
    split
    next heq =>
      rw [heq] at hv
      exact ⟨hv, trivial⟩
    next rest heq =>
      rw [heq] at hv
      exact ⟨hv, itemsFit_draftItems fuel false rest⟩

theorem membersFit_draftMembers : ∀ (fuel : ℕ) (first : Bool) (gs : List Glyph),
    Draft.MembersFit (draftMembers fuel first gs).1
  | 0, _, _ => trivial
  | fuel + 1, first, gs => by
    rw [draftMembers]
    split
    next => trivial
    next => trivial
    next g rest _ _ =>
      split
      · split
        · exact membersFit_draftMember fuel rest
        · exact ⟨trivial, trivial⟩
      · split
        · split
          · trivial
          · trivial
          · exact membersFit_draftMember fuel _
          · trivial
        · trivial

theorem membersFit_draftMember : ∀ (fuel : ℕ) (gs : List Glyph),
    Draft.MembersFit (draftMember fuel gs).1
  | 0, _ => trivial
  | fuel + 1, gs => by
    rw [draftMember]
    split
    next => exact ⟨trivial, trivial⟩
    next =>
      split
      next => exact ⟨trivial, trivial⟩
      next rest _ =>
        have hv := integersFit_draftValue fuel rest
        split
        next heq =>
          rw [heq] at hv
          exact ⟨hv, trivial⟩
        next rest heq =>
          rw [heq] at hv
          exact ⟨hv, membersFit_draftMembers fuel false rest⟩
      next => exact ⟨trivial, trivial⟩

end

/-- **The integers in the draft of a text fit 64 bits.** -/
theorem integersFit_ofGlyphs (gs : List Glyph) : (Document.ofGlyphs gs).root.IntegersFit :=
  integersFit_draftValue (3 * gs.length + 3) gs

/-! ## Values -/

mutual

/-- **The integers in the value of a draft fit if those in the draft do.** -/
theorem integersFit_value : ∀ (d : Draft) {depth : ℕ} {v : Json}, d.IntegersFit →
    d.value depth = .ok v → (Draft.ofJson v).IntegersFit
  | .missing _, _, _, _, h | .word _, _, _, _, h | .number _ _, _, _, _, h
  | .text _ _, _, _, _, h => nomatch h
  | .null, _, _, _, h | .bool _, _, _, _, h | .real _, _, _, _, h | .string _, _, _, _, h => by
    obtain rfl := Except.ok.inj h
    trivial
  | .integer _, _, _, hfit, h => by
    obtain rfl := Except.ok.inj h
    exact hfit
  | .array items stop, depth, v, hfit, h => by
    rw [Draft.value] at h
    split at h
    next => exact nomatch h
    next =>
      obtain ⟨vs, hvs, h⟩ := bind_eq_ok_iff.mp h
      split at h
      next => exact nomatch h
      next =>
        obtain rfl := Except.ok.inj h
        exact itemsFit_values items hfit hvs
  | .object members stop, depth, v, hfit, h => by
    rw [Draft.value] at h
    split at h
    next => exact nomatch h
    next =>
      obtain ⟨ms, hms, h⟩ := bind_eq_ok_iff.mp h
      split at h
      next => exact nomatch h
      next =>
        obtain rfl := Except.ok.inj h
        exact membersFit_memberValues members hfit hms

theorem itemsFit_values : ∀ (items : List Draft) {depth : ℕ} {vs : List Json},
    Draft.ItemsFit items → Draft.values depth items = .ok vs → Draft.ItemsFit (Draft.ofItems vs)
  | [], _, _, _, h => by
    obtain rfl := Except.ok.inj h
    trivial
  | d :: ds, _, _, hfit, h => by
    obtain ⟨v, hv, h⟩ := bind_eq_ok_iff.mp h
    obtain ⟨vs, hvs, h⟩ := bind_eq_ok_iff.mp h
    obtain rfl := Except.ok.inj h
    exact ⟨integersFit_value d hfit.1 hv, itemsFit_values ds hfit.2 hvs⟩

theorem membersFit_memberValues : ∀ (members : List (Draft × Draft)) {depth : ℕ}
    {ms : List (String × Json)}, Draft.MembersFit members →
    Draft.memberValues depth members = .ok ms → Draft.MembersFit (Draft.ofMembers ms)
  | [], _, _, _, h => by
    obtain rfl := Except.ok.inj h
    trivial
  | (k, d) :: members, _, _, hfit, h => by
    obtain ⟨s, -, h⟩ := bind_eq_ok_iff.mp h
    obtain ⟨v, hv, h⟩ := bind_eq_ok_iff.mp h
    obtain ⟨ms, hms, h⟩ := bind_eq_ok_iff.mp h
    obtain rfl := Except.ok.inj h
    exact ⟨integersFit_value d hfit.1 hv, membersFit_memberValues members hfit.2 hms⟩

end

end MarketFeed.Json
