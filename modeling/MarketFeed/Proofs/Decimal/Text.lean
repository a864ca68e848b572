import MarketFeed.Decimal.Printer
import MarketFeed.Decimal.Reader
import MarketFeed.Proofs.Text.Digits

/-!
# Decimals and their texts

The text of a decimal is read as that decimal, with the same number of places. It may be long
enough for the reader to watch out for too many digits, but the digits before any place write a
number no greater than the coefficient, so nothing is ever rounded.

## Main definitions

* `Decimal.magnitudeChars`: the text of a decimal behind its sign

## Main results

* `Decimal.readDigits_append`: digits that fit are read one by one
* `Decimal.readDigits_parts`: digits with a point among them are read
* `Decimal.ofText_text`: a decimal is read from its text
-/

namespace MarketFeed.Decimal

open Text

/-! ## Digits that fit -/

/-- Digits that fit the coefficient and the places are all kept. -/
theorem readDigits_append (long : Bool) {m s : ℕ} {point : Bool} {ds : List Char}
    (hds : ∀ c ∈ ds, isDigit c) (hlimit : digitsFrom m ds < limit)
    (hplaces : point → s + ds.length ≤ maxScale) (seen : Bool) (rest : List Char) :
    readDigits long m s point seen (ds ++ rest) =
      readDigits long (digitsFrom m ds) (if point then s + ds.length else s) point
        (seen || !ds.isEmpty) rest := by
  induction ds generalizing m s seen with
  | nil => cases point <;> cases seen <;> rfl
  | cons c ds ih =>
    have hc : isDigit c := hds c List.mem_cons_self
    have hvalue : 10 * m + digitValue c < limit := (le_digitsFrom _ ds).trans_lt hlimit
    have hfits : ¬ (seen ∧ long ∧
        ((point ∧ maxScale ≤ s) ∨ limit ≤ 10 * m + digitValue c)) := by
      rintro ⟨-, -, ⟨hpoint, hfull⟩ | hfull⟩
      · have hroom := hplaces hpoint
        rw [List.length_cons] at hroom
        omega
      · omega
    have hnext : point → (if point then s + 1 else s) + ds.length ≤ maxScale := by
      intro hpoint
      have hroom := hplaces hpoint
      rw [List.length_cons] at hroom
      rw [if_pos hpoint]
      omega
    rw [List.cons_append, readDigits, if_pos hc, if_neg hfits,
      ih (fun c hc => hds c (List.mem_cons_of_mem _ hc)) hlimit hnext]
    cases point
    · simp
    · simp only [if_true, List.length_cons, Bool.or_true, List.isEmpty_cons, Bool.not_false,
        Bool.true_or, digitsFrom_cons]
      rw [Nat.add_assoc, Nat.add_comm 1]

/-- Digits before a point and digits behind it are read in turn; without any behind it there is no
point. -/
theorem readDigits_parts (long : Bool) {whole places : List Char}
    (hdigits : ∀ c ∈ whole ++ places, isDigit c) (hwhole : whole ≠ [])
    (hlimit : ofDigits (whole ++ places) < limit) (hplaces : places.length ≤ maxScale) :
    readDigits long 0 0 false false
        (whole ++ (if places.length = 0 then [] else '.' :: places)) =
      .ok (ofDigits (whole ++ places), places.length) := by
  have hnonempty : whole.isEmpty = false := List.isEmpty_eq_false_iff.mpr hwhole
  rw [ofDigits_eq, digitsFrom_append] at hlimit ⊢
  rw [readDigits_append long (fun c hc => hdigits c (List.mem_append_left _ hc))
    ((le_digitsFrom _ places).trans_lt hlimit) (by simp), hnonempty]
  by_cases hnone : places.length = 0
  · rw [if_pos hnone]
    obtain rfl : places = [] := List.eq_nil_of_length_eq_zero hnone
    rfl
  · have hpoint : isDigit '.' = false := rfl
    have hbehind := readDigits_append long
      (fun c hc => hdigits c (List.mem_append_right _ hc)) hlimit
      (fun _ : true => (Nat.zero_add _).trans_le hplaces) true []
    rw [List.append_nil, readDigits] at hbehind
    rw [if_neg hnone, readDigits, hpoint, if_neg Bool.false_ne_true, if_pos (by simp)]
    simpa using hbehind

/-! ## The text of a decimal -/

/-- the characters of a decimal behind its sign -/
def magnitudeChars (a : Decimal) : List Char :=
  let ds := padded (a.scale + 1) a.coefficient.natAbs
  ds.take (ds.length - a.scale) ++
    (if a.scale = 0 then [] else '.' :: ds.drop (ds.length - a.scale))

theorem chars_eq (a : Decimal) :
    a.chars = (if a.coefficient < 0 then ['-'] else []) ++ a.magnitudeChars :=
  List.append_assoc ..

theorem scale_lt_length (a : Decimal) :
    a.scale < (padded (a.scale + 1) a.coefficient.natAbs).length := by
  rw [length_padded_eq_max]
  exact Nat.lt_of_lt_of_le (Nat.lt_succ_self _) (le_max_left _ _)

/-- A decimal begins, behind its sign, with a digit. -/
theorem exists_magnitudeChars (a : Decimal) : ∃ c cs, a.magnitudeChars = c :: cs ∧ isDigit c := by
  obtain ⟨c, ds, hds⟩ := List.exists_cons_of_ne_nil (padded_ne_nil (a.scale + 1)
    a.coefficient.natAbs)
  have hc : isDigit c := isDigit_padded (a.scale + 1) a.coefficient.natAbs c
    (hds ▸ List.mem_cons_self)
  have hlength := a.scale_lt_length
  obtain ⟨k, hk⟩ : ∃ k, (padded (a.scale + 1) a.coefficient.natAbs).length - a.scale = k + 1 :=
    ⟨_, (Nat.succ_pred_eq_of_pos (by omega)).symm⟩
  rw [magnitudeChars, hk, hds, List.take_succ_cons]
  exact ⟨c, _, List.cons_append, hc⟩

/-- The text behind the sign is read as the coefficient and the scale. -/
theorem readDigits_magnitudeChars (long : Bool) (a : Decimal) :
    readDigits long 0 0 false false a.magnitudeChars =
      .ok (a.coefficient.natAbs, a.scale) := by
  have hlength := a.scale_lt_length
  have hdigits := isDigit_padded (a.scale + 1) a.coefficient.natAbs
  have hvalue := ofDigits_padded (a.scale + 1) a.coefficient.natAbs
  unfold magnitudeChars
  generalize padded (a.scale + 1) a.coefficient.natAbs = ds at hlength hdigits hvalue ⊢
  have hsplit : ds.take (ds.length - a.scale) ++ ds.drop (ds.length - a.scale) = ds :=
    List.take_append_drop _ ds
  have hplaces : (ds.drop (ds.length - a.scale)).length = a.scale := by
    rw [List.length_drop]
    omega
  have hwhole : ds.take (ds.length - a.scale) ≠ [] := by
    rw [ne_eq, List.take_eq_nil_iff]
    rintro (hzero | rfl)
    · omega
    · exact Nat.not_lt_zero _ hlength
  have hread := readDigits_parts long (by rw [hsplit]; exact hdigits) hwhole
    (by rw [hsplit, hvalue]; exact a.coefficient_lt) (hplaces.trans_le a.scale_le)
  rwa [hsplit, hvalue, hplaces] at hread

/-- The magnitude of a decimal, with its sign and its places, is that decimal. -/
theorem ofMagnitude?_natAbs (a : Decimal) :
    ofMagnitude? (decide (a.coefficient < 0)) a.coefficient.natAbs a.scale = some a := by
  have hsign : (if decide (a.coefficient < 0) then -(a.coefficient.natAbs : ℤ)
      else a.coefficient.natAbs) = a.coefficient := by
    by_cases hneg : a.coefficient < 0
    · rw [if_pos (decide_eq_true hneg)]
      omega
    · rw [if_neg (by simpa using hneg)]
      omega
  rw [ofMagnitude?, hsign, ofParts?, dif_pos ⟨a.coefficient_lt, a.scale_le⟩]

theorem readPlain_chars (a : Decimal) : readPlain a.chars = .ok a := by
  obtain ⟨c, cs, hcs, hc⟩ := a.exists_magnitudeChars
  have hread := fun long => a.readDigits_magnitudeChars long
  have hparts := a.ofMagnitude?_natAbs
  rw [chars_eq]
  unfold readPlain
  by_cases hneg : a.coefficient < 0
  · rw [if_pos hneg]
    rw [decide_eq_true hneg] at hparts
    simp only [List.singleton_append, bind, Except.bind, hread, hparts]
    rfl
  · rw [if_neg hneg, List.nil_append]
    rw [decide_eq_false hneg] at hparts
    have hminus : c ≠ '-' := ne_of_isDigit hc rfl
    have hplus : c ≠ '+' := ne_of_isDigit hc rfl
    rw [hcs] at hread ⊢
    split
    next hnil => exact nomatch hnil
    next hsign => exact absurd (List.cons.inj hsign).1 hminus
    next hsign => exact absurd (List.cons.inj hsign).1 hplus
    next =>
      simp only [bind, Except.bind, hread, hparts]
      rfl

/-- **A decimal is read from its text.** -/
theorem ofText_text (a : Decimal) : ofText a.text = .ok a := by
  have hchars : a.text.toList = a.chars := String.toList_ofList
  rw [ofText, hchars, ofChars, readPlain_chars]

end MarketFeed.Decimal
