import Mathlib.Data.List.Basic
import MarketFeed.Json.Decode
import MarketFeed.Json.Printer
import MarketFeed.Proofs.Text.Digits

/-!
# JSON values and their texts

The text of a value is drafted as that value without a fault, provided the value has no double and
its integers fit 64 bits. Strings may hold any characters. What stands behind a value ends its last
number, since it is a comma, a closing bracket, or nothing.

## Main definitions

* `IntegerFits n`: an integer of 64 bits, with a sign or without
* `Exact j`: a value without doubles, its integers of 64 bits
* `Ends gs`: what may stand behind a value

## Main results

* `readString_stringChars`: a string is read from its text
* `readNumber_integerChars`: an integer is read from its text
* `draftValue_chars`: a value is drafted from its text
* `Decoder.run_text`: a decoder makes of the text of a value what it makes of the value
-/

namespace MarketFeed.Json

open Text

variable {c : Char} {ds : List Char} {gs rest : List Glyph} {n : ℤ} {fuel : ℕ}

/-! ## Strings -/

theorem hex4?_control : ∀ n < 32, hex4? (some '0') (some '0') (some (Nat.digitChar (n / 16)))
    (some (Nat.digitChar (n % 16))) = some n := by
  decide

/-- A character is read from its text, whether it is escaped there or not. -/
theorem readGlyphs_stringChar (c : Char) (gs : List Glyph) :
    readGlyphs ((stringChar c).map some ++ gs) = consGlyph (some c) (readGlyphs gs) := by
  unfold stringChar
  split
  case h_8 hquote hbackslash _ _ _ _ _ =>
    by_cases hcontrol : c < ' '
    · rw [if_pos hcontrol]
      have hlt : c.toNat < 32 := hcontrol
      have hlow : isLowSurrogate c.toNat = false := by
        rw [isLowSurrogate, decide_eq_false (by omega), Bool.false_and]
      have hhigh : isHighSurrogate c.toNat = false := by
        rw [isHighSurrogate, decide_eq_false (by omega), Bool.false_and]
      simp only [List.map_cons, List.map_nil, List.cons_append, List.nil_append]
      rw [readGlyphs]
      simp only [hex4?_control c.toNat hlt, hlow, hhigh, Char.ofNat_toNat, Bool.false_eq_true,
        if_false]
    · rw [if_neg hcontrol]
      simp only [List.map_cons, List.map_nil, List.cons_append, List.nil_append]
      rw [readGlyphs, if_neg hcontrol]
      · exact hquote
      all_goals
        intros
        exact hbackslash ‹c = '\\'›
  all_goals rfl

/-- The characters of a string are read up to its closing quote. -/
theorem readGlyphs_stringChars (cs : List Char) (rest : List Glyph) :
    readGlyphs ((cs.flatMap stringChar).map some ++ some '"' :: rest) =
      .ok (cs.map some, rest) := by
  induction cs with
  | nil => rfl
  | cons c cs ih =>
    rw [List.flatMap_cons, List.map_append, List.append_assoc, readGlyphs_stringChar, ih]
    rfl

theorem mapM_id_map_some {α : Type} (as : List α) : (as.map some).mapM id = some as := by
  induction as with
  | nil => rfl
  | cons a as ih =>
    rw [List.map_cons, List.mapM_cons, ih]
    rfl

/-- **A string is read from its text.** -/
theorem readString_stringChars (s : String) (rest : List Glyph) :
    readString ((s.toList.flatMap stringChar).map some ++ some '"' :: rest) = .ok (s, rest) := by
  unfold readString
  simp only [readGlyphs_stringChars, bind, Except.bind, mapM_id_map_some, String.ofList_toList]
  rfl

/-- From behind its opening quote a string is drafted from its text. -/
theorem draftString_stringChars (s : String) (rest : List Glyph) :
    draftString ((s.toList.flatMap stringChar).map some ++ some '"' :: rest) =
      (.string s, some rest) := by
  rw [draftString, readString_stringChars]

/-! ## Integers -/

/-- An integer of 64 bits, with a sign or without. -/
def IntegerFits (n : ℤ) : Prop := -(2 ^ 63) ≤ n ∧ n < 2 ^ 64

/-- What may stand behind a value: a comma, a closing bracket, or nothing. -/
def Ends (gs : List Glyph) : Prop := ∀ g ∈ gs.head?, g = some ',' ∨ g = some ']' ∨ g = some '\x7d'

theorem Ends.nil : Ends [] := fun _ h => nomatch h

theorem Ends.comma (gs : List Glyph) : Ends (some ',' :: gs) := by
  intro g hg
  exact .inl (Option.some.inj hg).symm

theorem Ends.bracket (gs : List Glyph) : Ends (some ']' :: gs) := by
  intro g hg
  exact .inr (.inl (Option.some.inj hg).symm)

theorem Ends.brace (gs : List Glyph) : Ends (some '\x7d' :: gs) := by
  intro g hg
  exact .inr (.inr (Option.some.inj hg).symm)

/-- The digits of a text end where a value does. -/
theorem spanDigitGlyphs_append (hds : ∀ c ∈ ds, isDigit c) (hrest : Ends rest) :
    spanDigitGlyphs (ds.map some ++ rest) = (ds, rest) := by
  induction ds with
  | nil =>
    cases rest with
    | nil => rfl
    | cons g gs => rcases hrest g rfl with rfl | rfl | rfl <;> rfl
  | cons c ds ih =>
    have hc : digitGlyph? (some c) = some c := if_pos (hds c List.mem_cons_self)
    rw [List.map_cons, List.cons_append, spanDigitGlyphs, hc,
      ih fun c hc => hds c (List.mem_cons_of_mem _ hc)]

/-- A number with neither point nor exponent is a whole one. -/
theorem readFraction_of_ends (negative : Bool) (whole : List Char) (hrest : Ends rest) :
    readFraction negative whole rest =
      wholeNumber negative whole >>= fun v => pure (v, rest) := by
  cases rest with
  | nil => rfl
  | cons g gs => rcases hrest g rfl with rfl | rfl | rfl <;> rfl

/-- The digits of a number are read as a whole number: they have no needless zero in front. -/
theorem readMagnitude_digits (negative : Bool) (n : ℕ) (hrest : Ends rest) :
    readMagnitude negative ((digits n).map some ++ rest) =
      wholeNumber negative (digits n) >>= fun v => pure (v, rest) := by
  have hspan := spanDigitGlyphs_append (isDigit_digits n) hrest
  unfold readMagnitude
  rw [hspan]
  split
  next h => exact absurd (Prod.mk.inj h).1 (digits_ne_nil n)
  next h => exact absurd (Prod.mk.inj h).1 (digits_ne_nil n)
  next h =>
    have hdigits := (Prod.mk.inj h).1
    by_cases hzero : n = 0
    · subst hzero
      exact nomatch hdigits
    · exact absurd (hdigits ▸ rfl) (digits_head hzero)
  next h =>
    obtain ⟨rfl, rfl⟩ := Prod.mk.inj h
    exact readFraction_of_ends negative _ hrest

/-- **An integer is read from its text.** -/
theorem readNumber_integerChars (h : IntegerFits n) (hrest : Ends rest) :
    readNumber ((integerChars n).map some ++ rest) = .ok (.integer n, rest) := by
  obtain ⟨hlow, hhigh⟩ := h
  have hvalue := ofDigits_digits n.natAbs
  unfold integerChars
  by_cases hneg : n < 0
  · have hfits : ¬ 2 ^ 64 ≤ n.natAbs := by omega
    have hinside : ¬ (n.natAbs = 0 ∨ 2 ^ 63 < n.natAbs) := by omega
    have hwhole : wholeNumber true (digits n.natAbs) = .ok (.integer n) := by
      unfold wholeNumber
      rw [hvalue]
      simp only [Nat.pow_eq, hfits, hinside, not_true_eq_false, if_false]
      have hback : -(n.natAbs : ℤ) = n := by omega
      rw [hback]
    rw [if_pos hneg, List.singleton_append, List.map_cons, List.cons_append, readNumber,
      readMagnitude_digits true _ hrest, hwhole]
    rfl
  · have hfits : ¬ 2 ^ 64 ≤ n.natAbs := by omega
    have hwhole : wholeNumber false (digits n.natAbs) = .ok (.integer n) := by
      unfold wholeNumber
      rw [hvalue]
      simp only [Nat.pow_eq, hfits, if_false]
      have hback : (n.natAbs : ℤ) = n := by omega
      rw [hback]
      rfl
    obtain ⟨c, ds, hds⟩ := List.exists_cons_of_ne_nil (digits_ne_nil n.natAbs)
    have hc : c ≠ '-' := ne_of_isDigit (isDigit_digits n.natAbs c (hds ▸ List.mem_cons_self)) rfl
    have hread := readMagnitude_digits false n.natAbs hrest
    rw [hwhole] at hread
    rw [if_neg hneg, List.nil_append]
    rw [hds, List.map_cons, List.cons_append] at hread ⊢
    rw [readNumber]
    · exact hread
    · intro gs heq
      exact hc (Option.some.inj (List.cons.inj heq).1)

/-! ## Values -/

mutual

/-- A value without doubles, all its integers of 64 bits. -/
def Exact : Json → Prop
  | .null | .bool _ | .string _ => True
  | .integer n => IntegerFits n
  | .real _ => False
  | .array vs => ExactItems vs
  | .object ms => ExactMembers ms

/-- The items of an array are exact. -/
def ExactItems : List Json → Prop
  | [] => True
  | v :: vs => v.Exact ∧ ExactItems vs

/-- The values of the members of an object are exact. -/
def ExactMembers : List (String × Json) → Prop
  | [] => True
  | (_, v) :: ms => v.Exact ∧ ExactMembers ms

end

/-- A character that a value begins with, at least as far as containers can tell. -/
def Opens (c : Char) : Prop := isSpace c = false ∧ c ≠ ']'

/-- A number begins with its sign or a digit. -/
theorem exists_integerChars (n : ℤ) :
    ∃ c cs, integerChars n = c :: cs ∧ (c = '-' ∨ isDigit c) := by
  rw [integerChars]
  by_cases hneg : n < 0
  · rw [if_pos hneg]
    exact ⟨'-', digits n.natAbs, rfl, .inl rfl⟩
  · obtain ⟨c, ds, hds⟩ := List.exists_cons_of_ne_nil (digits_ne_nil n.natAbs)
    rw [if_neg hneg, hds]
    exact ⟨c, ds, rfl, .inr (isDigit_digits n.natAbs c (hds ▸ List.mem_cons_self))⟩

/-- The first character of a number is none of the others that matter. -/
theorem ne_of_number {c' : Char} (h : c = '-' ∨ isDigit c) (hsign : c' ≠ '-')
    (hdigit : isDigit c' = false) : c ≠ c' := by
  rintro rfl
  rcases h with rfl | h
  · exact hsign rfl
  · exact absurd h (by simp [hdigit])

theorem opens_of_number (h : c = '-' ∨ isDigit c) : Opens c := by
  have hne : ∀ c', c' ≠ '-' → isDigit c' = false → c ≠ c' := fun _ => ne_of_number h
  refine ⟨?_, hne _ (by decide) rfl⟩
  simp only [isSpace, Bool.or_eq_false_iff, beq_eq_false_iff_ne]
  exact ⟨⟨⟨hne _ (by decide) rfl, hne _ (by decide) rfl⟩, hne _ (by decide) rfl⟩,
    hne _ (by decide) rfl⟩

/-- The text of a value begins with a character that opens it. -/
theorem exists_chars {j : Json} (h : j.Exact) : ∃ c cs, j.chars = c :: cs ∧ Opens c := by
  cases j with
  | real x => exact h.elim
  | integer n =>
    obtain ⟨c, cs, hcs, hc⟩ := exists_integerChars n
    exact ⟨c, cs, hcs, opens_of_number hc⟩
  | bool b => cases b <;> exact ⟨_, _, rfl, rfl, by decide⟩
  | null | string s | array vs | object ms => exact ⟨_, _, rfl, rfl, by decide⟩

theorem skipSpace_cons (h : isSpace c = false) (gs : List Glyph) :
    skipSpace (some c :: gs) = some c :: gs := by
  rw [skipSpace, h]
  rfl

/-- A sign or a digit begins a number. -/
theorem draftValue_number (h : c = '-' ∨ isDigit c) (fuel : ℕ) (gs : List Glyph) :
    draftValue (fuel + 1) (some c :: gs) = draftNumber (some c :: gs) := by
  have hne : ∀ c', c' ≠ '-' → isDigit c' = false → c ≠ c' := fun _ => ne_of_number h
  have hnumber : some c = some '-' ∨ (digitGlyph? (some c)).isSome := by
    refine h.imp (congrArg some) fun h => ?_
    rw [digitGlyph?, if_pos h]
    rfl
  rw [draftValue, skipSpace_cons (opens_of_number h).1]
  split
  next heq => exact nomatch heq
  next heq => exact absurd (Option.some.inj (List.cons.inj heq).1) (hne _ (by decide) rfl)
  next heq => exact absurd (Option.some.inj (List.cons.inj heq).1) (hne _ (by decide) rfl)
  next heq => exact absurd (Option.some.inj (List.cons.inj heq).1) (hne _ (by decide) rfl)
  next heq => exact absurd (Option.some.inj (List.cons.inj heq).1) (hne _ (by decide) rfl)
  next heq => exact absurd (Option.some.inj (List.cons.inj heq).1) (hne _ (by decide) rfl)
  next heq => exact absurd (Option.some.inj (List.cons.inj heq).1) (hne _ (by decide) rfl)
  next heq =>
    obtain ⟨rfl, rfl⟩ := List.cons.inj heq
    exact if_pos hnumber

/-- An integer is drafted from its text. -/
theorem draftValue_integerChars (h : IntegerFits n) (hrest : Ends rest) (fuel : ℕ) :
    draftValue (fuel + 1) ((integerChars n).map some ++ rest) = (.integer n, some rest) := by
  have hread := readNumber_integerChars h hrest
  obtain ⟨c, cs, hcs, hc⟩ := exists_integerChars n
  rw [hcs, List.map_cons, List.cons_append] at hread ⊢
  rw [draftValue_number hc, draftNumber, hread]
  rfl

/-- An item and the items behind it are drafted one after the other. -/
theorem draftItem_of {v : Draft} {vs : List Draft} {gs' : List Glyph}
    (hv : draftValue fuel gs = (v, some gs'))
    (hvs : draftItems fuel false gs' = (vs, none, some rest)) :
    draftItem (fuel + 1) gs = (v :: vs, none, some rest) := by
  rw [draftItem, hv]
  simp only [hvs]

/-- A member and the members behind it are drafted one after the other. -/
theorem draftMember_of {k : String} {v : Draft} {ms : List (Draft × Draft)}
    {gs' gs'' : List Glyph} (hk : draftString gs = (.string k, some (some ':' :: gs')))
    (hv : draftValue fuel gs' = (v, some gs''))
    (hms : draftMembers fuel false gs'' = (ms, none, some rest)) :
    draftMember (fuel + 1) gs = ((.string k, v) :: ms, none, some rest) := by
  have hcolon : skipSpace (some ':' :: gs') = some ':' :: gs' := skipSpace_cons rfl gs'
  rw [draftMember, hk]
  simp only [hcolon, hv, hms]

theorem ends_itemChars (vs : List Json) (rest : List Glyph) :
    Ends ((itemChars false vs).map some ++ some ']' :: rest) := by
  cases vs with
  | nil => exact .bracket rest
  | cons v vs => exact .comma _

theorem ends_memberChars (ms : List (String × Json)) (rest : List Glyph) :
    Ends ((memberChars false ms).map some ++ some '\x7d' :: rest) := by
  cases ms with
  | nil => exact .brace rest
  | cons m ms => exact .comma _

/-- The first item of an array is met where no bracket closes it. -/
theorem draftItems_true (h : Opens c) (fuel : ℕ) (gs : List Glyph) :
    draftItems (fuel + 1) true (some c :: gs) = draftItem fuel (some c :: gs) := by
  rw [draftItems, skipSpace_cons h.1]
  split
  next heq => exact nomatch heq
  next heq => exact absurd (Option.some.inj (List.cons.inj heq).1) h.2
  next heq =>
    obtain ⟨rfl, rfl⟩ := List.cons.inj heq
    exact if_pos rfl

/-- An item behind a comma is met where no bracket follows. -/
theorem draftItems_comma (h : Opens c) (fuel : ℕ) (gs : List Glyph) :
    draftItems (fuel + 1) false (some ',' :: some c :: gs) = draftItem fuel (some c :: gs) := by
  have hcomma : skipSpace (some ',' :: some c :: gs) = some ',' :: some c :: gs :=
    skipSpace_cons rfl _
  rw [draftItems, hcomma]
  split
  next heq => exact nomatch heq
  next heq => exact nomatch heq
  next heq =>
    obtain ⟨rfl, rfl⟩ := List.cons.inj heq
    rw [if_neg Bool.false_ne_true, if_pos rfl, skipSpace_cons h.1]
    split
    next heq => exact absurd (Option.some.inj (List.cons.inj heq).1) h.2
    next => rfl

theorem draftMembers_true (fuel : ℕ) (gs : List Glyph) :
    draftMembers (fuel + 1) true (some '"' :: gs) = draftMember fuel gs := rfl

theorem draftMembers_comma (fuel : ℕ) (gs : List Glyph) :
    draftMembers (fuel + 1) false (some ',' :: some '"' :: gs) = draftMember fuel gs := rfl

/-- the characters of a member behind the opening quote of its key, and of those behind it -/
theorem memberChars_cons (first : Bool) (k : String) (v : Json) (ms : List (String × Json)) :
    memberChars first ((k, v) :: ms) = (if first then [] else [',']) ++
      '"' :: (k.toList.flatMap stringChar ++ '"' :: ':' :: (v.chars ++ memberChars false ms)) := by
  simp only [memberChars, stringChars, List.append_assoc, List.cons_append, List.nil_append]

mutual

/-- **A value is drafted from its text.** Every glyph of a text is worth three nested calls. -/
theorem draftValue_chars : ∀ (j : Json) (fuel : ℕ) (rest : List Glyph), j.Exact →
    3 * j.chars.length ≤ fuel → Ends rest →
    draftValue fuel (j.chars.map some ++ rest) = (Draft.ofJson j, some rest)
  | j, 0, _, h, hfuel, _ => by
    obtain ⟨c, cs, hcs, -⟩ := exists_chars h
    rw [hcs, List.length_cons] at hfuel
    omega
  | .null, _ + 1, _, _, _, _ => rfl
  | .bool true, _ + 1, _, _, _, _ => rfl
  | .bool false, _ + 1, _, _, _, _ => rfl
  | .integer n, fuel + 1, rest, h, _, hrest => draftValue_integerChars h hrest fuel
  | .string s, _ + 1, rest, _, _, _ => by
    rw [chars, stringChars, List.map_append, List.map_cons, List.append_assoc, List.cons_append]
    exact draftString_stringChars s rest
  | .array vs, fuel + 1, rest, h, hfuel, _ => by
    have hlength : (chars (.array vs)).length = (itemChars true vs).length + 2 := by
      rw [chars, List.length_append, List.length_cons]
      rfl
    have hitems := draftItems_itemChars vs true fuel rest h (by omega)
    rw [chars, List.map_append, List.map_cons, List.append_assoc, List.cons_append, draftValue,
      skipSpace_cons rfl]
    exact congrArg (fun r => (Draft.array r.1 r.2.1, r.2.2)) hitems
  | .object ms, fuel + 1, rest, h, hfuel, _ => by
    have hlength : (chars (.object ms)).length = (memberChars true ms).length + 2 := by
      rw [chars, List.length_append, List.length_cons]
      rfl
    have hmembers := draftMembers_memberChars ms true fuel rest h (by omega)
    rw [chars, List.map_append, List.map_cons, List.append_assoc, List.cons_append, draftValue,
      skipSpace_cons rfl]
    exact congrArg (fun r => (Draft.object r.1 r.2.1, r.2.2)) hmembers

/-- The items of an array are drafted from their text. -/
theorem draftItems_itemChars : ∀ (vs : List Json) (first : Bool) (fuel : ℕ) (rest : List Glyph),
    ExactItems vs → 3 * (itemChars first vs).length + 2 ≤ fuel →
    draftItems fuel first ((itemChars first vs).map some ++ some ']' :: rest) =
      (Draft.ofItems vs, none, some rest)
  | _, _, 0, _, _, hfuel => absurd hfuel (by omega)
  | _, _, 1, _, _, hfuel => absurd hfuel (by omega)
  | [], _, _ + 2, _, _, _ => rfl
  | v :: vs, first, fuel + 2, rest, h, hfuel => by
    obtain ⟨c, cs, hcs, hc⟩ := exists_chars h.1
    have hpositive : 0 < v.chars.length := by
      rw [hcs]
      exact Nat.succ_pos _
    have hlength : v.chars.length + (itemChars false vs).length ≤
        (itemChars first (v :: vs)).length := by
      rw [itemChars, List.append_assoc, List.length_append, List.length_append]
      exact Nat.le_add_left _ _
    have hv := draftValue_chars v fuel _ h.1 (by omega) (ends_itemChars vs rest)
    have hvs := draftItems_itemChars vs false fuel rest h.2 (by omega)
    have hitem := draftItem_of hv hvs
    rw [hcs, List.map_cons, List.cons_append] at hitem
    rw [itemChars, hcs]
    simp only [List.map_append, List.map_cons, List.append_assoc, List.cons_append]
    cases first with
    | true => exact (draftItems_true hc (fuel + 1) _).trans hitem
    | false => exact (draftItems_comma hc (fuel + 1) _).trans hitem

/-- The members of an object are drafted from their text. -/
theorem draftMembers_memberChars : ∀ (ms : List (String × Json)) (first : Bool) (fuel : ℕ)
    (rest : List Glyph), ExactMembers ms → 3 * (memberChars first ms).length + 2 ≤ fuel →
    draftMembers fuel first ((memberChars first ms).map some ++ some '\x7d' :: rest) =
      (Draft.ofMembers ms, none, some rest)
  | _, _, 0, _, _, hfuel => absurd hfuel (by omega)
  | _, _, 1, _, _, hfuel => absurd hfuel (by omega)
  | [], _, _ + 2, _, _, _ => rfl
  | (k, v) :: ms, first, fuel + 2, rest, h, hfuel => by
    have hlength : v.chars.length + (memberChars false ms).length + 2 ≤
        (memberChars first ((k, v) :: ms)).length := by
      rw [memberChars_cons, List.length_append, List.length_cons, List.length_append,
        List.length_cons, List.length_cons, List.length_append]
      omega
    have hv := draftValue_chars v fuel _ h.1 (by omega) (ends_memberChars ms rest)
    have hms := draftMembers_memberChars ms false fuel rest h.2 (by omega)
    have hmember := draftMember_of (draftString_stringChars k _) hv hms
    rw [memberChars_cons]
    simp only [List.map_append, List.map_cons, List.append_assoc, List.cons_append]
    cases first with
    | true => exact (draftMembers_true (fuel + 1) _).trans hmember
    | false => exact (draftMembers_comma (fuel + 1) _).trans hmember

end

/-! ## Whole texts -/

/-- The text of a value is a document of nothing but that value. -/
theorem ofGlyphs_text {j : Json} (h : j.Exact) :
    Document.ofGlyphs (glyphs j.text) = ⟨Draft.ofJson j, some []⟩ := by
  have hglyphs : glyphs j.text = j.chars.map some ++ [] := by
    rw [glyphs, text, String.toList_ofList, List.append_nil]
  have hlength : (glyphs j.text).length = j.chars.length := by
    rw [hglyphs, List.append_nil, List.length_map]
  rw [Document.ofGlyphs, hlength, hglyphs,
    draftValue_chars j _ [] h (Nat.le_add_right _ _) .nil]

/-- **A decoder makes of the text of a value what it makes of the value.** -/
theorem Decoder.run_text {α : Type} {j : Json} (h : j.Exact) (decode : Decoder α) :
    decode.run j.text = decode (Draft.ofJson j) := by
  rw [Decoder.run, Decoder.runGlyphs, ofGlyphs_text h]
  cases decode (Draft.ofJson j) <;> rfl

end MarketFeed.Json
