import MarketFeed.Proofs.Json.Integers

/-!
# Values of whole texts

A text has a value if its draft has no fault and is not nested too deep, and then the draft is that
of the value. So whatever is decoded from the text is decoded from its value, and an exact value
that is not nested too deep is read from its own text.

## Main definitions

* `nesting`: how deep arrays and objects stand in each other

## Main results

* `eq_ofJson_of_value`, `value_ofJson`: a draft has a value if it is the draft of one
* `Decoder.runGlyphs_of_read`: a text is decoded as its value is
* `readText_text`: an exact value is read from its text
-/

namespace MarketFeed.Json

open Text

mutual

/-- how deep arrays and objects stand in each other -/
def nesting : Json → ℕ
  | .array vs => nestingItems vs + 1
  | .object ms => nestingMembers ms + 1
  | .null | .bool _ | .integer _ | .real _ | .string _ => 0

/-- the deepest nesting of some items -/
def nestingItems : List Json → ℕ
  | [] => 0
  | v :: vs => max v.nesting (nestingItems vs)

/-- the deepest nesting of the values of some members -/
def nestingMembers : List (String × Json) → ℕ
  | [] => 0
  | (_, v) :: ms => max v.nesting (nestingMembers ms)

end

/-! ## Drafts of values -/

theorem eq_string_of_key {k : Draft} {s : String} (h : k.key = .ok s) : k = .string s := by
  cases k with
  | string s' => rw [Except.ok.inj h]
  | _ => exact nomatch h

mutual

/-- **Only the draft of a value has that value.** -/
theorem eq_ofJson_of_value : ∀ (d : Draft) {depth : ℕ} {v : Json}, d.value depth = .ok v →
    d = Draft.ofJson v
  | .missing _, _, _, h | .word _, _, _, h | .number _ _, _, _, h | .text _ _, _, _, h => nomatch h
  | .null, _, _, h | .bool _, _, _, h | .integer _, _, _, h | .real _, _, _, h
  | .string _, _, _, h => by
    obtain rfl := Except.ok.inj h
    rfl
  | .array items stop, depth, v, h => by
    rw [Draft.value] at h
    split at h
    next => exact nomatch h
    next =>
      obtain ⟨vs, hvs, h⟩ := bind_eq_ok_iff.mp h
      split at h
      next => exact nomatch h
      next =>
        obtain rfl := Except.ok.inj h
        rw [eq_ofItems_of_values items hvs]
        rfl
  | .object members stop, depth, v, h => by
    rw [Draft.value] at h
    split at h
    next => exact nomatch h
    next =>
      obtain ⟨ms, hms, h⟩ := bind_eq_ok_iff.mp h
      split at h
      next => exact nomatch h
      next =>
        obtain rfl := Except.ok.inj h
        rw [eq_ofMembers_of_memberValues members hms]
        rfl

theorem eq_ofItems_of_values : ∀ (items : List Draft) {depth : ℕ} {vs : List Json},
    Draft.values depth items = .ok vs → items = Draft.ofItems vs
  | [], _, _, h => by
    obtain rfl := Except.ok.inj h
    rfl
  | d :: items, _, _, h => by
    obtain ⟨v, hv, h⟩ := bind_eq_ok_iff.mp h
    obtain ⟨vs, hvs, h⟩ := bind_eq_ok_iff.mp h
    obtain rfl := Except.ok.inj h
    rw [eq_ofJson_of_value d hv, eq_ofItems_of_values items hvs]
    rfl

theorem eq_ofMembers_of_memberValues : ∀ (members : List (Draft × Draft)) {depth : ℕ}
    {ms : List (String × Json)}, Draft.memberValues depth members = .ok ms →
    members = Draft.ofMembers ms
  | [], _, _, h => by
    obtain rfl := Except.ok.inj h
    rfl
  | (k, d) :: members, _, _, h => by
    obtain ⟨s, hs, h⟩ := bind_eq_ok_iff.mp h
    obtain ⟨v, hv, h⟩ := bind_eq_ok_iff.mp h
    obtain ⟨ms, hms, h⟩ := bind_eq_ok_iff.mp h
    obtain rfl := Except.ok.inj h
    rw [eq_string_of_key hs, eq_ofJson_of_value d hv, eq_ofMembers_of_memberValues members hms]
    rfl

end

mutual

/-- **The draft of a value has that value**, unless it is nested too deep. -/
theorem value_ofJson : ∀ (v : Json) {depth : ℕ}, v.nesting < depth →
    (Draft.ofJson v).value depth = .ok v
  | .null, _, _ | .bool _, _, _ | .integer _, _, _ | .real _, _, _ | .string _, _, _ => rfl
  | .array vs, depth, h => by
    rw [nesting] at h
    have hvs := values_ofItems vs (show nestingItems vs < depth - 1 by omega)
    rw [Draft.ofJson, Draft.value, if_neg (by omega), hvs]
    rfl
  | .object ms, depth, h => by
    rw [nesting] at h
    have hms := memberValues_ofMembers ms (show nestingMembers ms < depth - 1 by omega)
    rw [Draft.ofJson, Draft.value, if_neg (by omega), hms]
    rfl

theorem values_ofItems : ∀ (vs : List Json) {depth : ℕ}, nestingItems vs < depth →
    Draft.values depth (Draft.ofItems vs) = .ok vs
  | [], _, _ => rfl
  | v :: vs, depth, h => by
    rw [nestingItems, max_lt_iff] at h
    rw [Draft.ofItems, Draft.values, value_ofJson v h.1, values_ofItems vs h.2]
    rfl

theorem memberValues_ofMembers : ∀ (ms : List (String × Json)) {depth : ℕ},
    nestingMembers ms < depth → Draft.memberValues depth (Draft.ofMembers ms) = .ok ms
  | [], _, _ => rfl
  | (k, v) :: ms, depth, h => by
    rw [nestingMembers, max_lt_iff] at h
    rw [Draft.ofMembers, Draft.memberValues, value_ofJson v h.1, memberValues_ofMembers ms h.2]
    rfl

end

/-! ## Texts -/

variable {α : Type} {gs : List Glyph} {v : Json}

/-- What is read of a text is drafted as it is, and nothing but white space is behind it. -/
theorem root_of_read (h : read gs = .ok v) :
    (Document.ofGlyphs gs).root = Draft.ofJson v ∧ (Document.ofGlyphs gs).finish = .ok () := by
  obtain ⟨v', hv, h⟩ := bind_eq_ok_iff.mp h
  obtain ⟨u, hfinish, h⟩ := bind_eq_ok_iff.mp h
  obtain rfl := Except.ok.inj h
  exact ⟨eq_ofJson_of_value _ hv, hfinish⟩

/-- **A text is decoded as its value is.** -/
theorem Decoder.runGlyphs_of_read (h : read gs = .ok v) (decode : Decoder α) :
    decode.runGlyphs gs = decode (Draft.ofJson v) := by
  obtain ⟨hroot, hfinish⟩ := root_of_read h
  rw [Decoder.runGlyphs, hroot, hfinish]
  cases decode (Draft.ofJson v) <;> rfl

/-- The integers in the value of a text fit 64 bits. -/
theorem integersFit_of_read (h : read gs = .ok v) : (Draft.ofJson v).IntegersFit := by
  rw [← (root_of_read h).1]
  exact integersFit_ofGlyphs gs

/-- **An exact value is read from its text**, unless it is nested too deep. -/
theorem readText_text (hexact : v.Exact) (hnesting : v.nesting < Draft.maxDepth) :
    readText v.text = .ok v := by
  rw [readText, read, ofGlyphs_text hexact]
  simp only [value_ofJson v hnesting]
  rfl

end MarketFeed.Json
