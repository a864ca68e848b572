import Mathlib.Data.List.TakeWhile
import MarketFeed.Proofs.Binary64.Integers
import MarketFeed.Proofs.Text.Digits
import MarketFeed.Settings.Layer

/-!
# What texts set

A variable is a text, and becomes a truth value, an integer or a double where it reads like one.
The text of an integer becomes this integer if 64 bits hold it with its sign. Otherwise it becomes
the double nearest to it, as an integer in a JSON file does.

## Main definitions

* `WritesInteger t n`: a text writes an integer with decimal digits
* `IsPlainText t`: a text reads neither as a truth value nor as a number
* `SettingValue.ofInteger n`: what an integer sets

## Main results

* `SettingValue.ofText_of_writesInteger`: a text that writes an integer sets it
* `SettingValue.ofText_of_isPlainText`: any other text stays a text
-/

namespace MarketFeed

open Text

/-- A text writes an integer: decimal digits after at most one sign. -/
inductive WritesInteger : String → ℤ → Prop
  | unsigned {ds : List Char} (ne_nil : ds ≠ []) (digits : ∀ c ∈ ds, isDigit c) :
    WritesInteger (String.ofList ds) (ofDigits ds)
  | plus {ds : List Char} (ne_nil : ds ≠ []) (digits : ∀ c ∈ ds, isDigit c) :
    WritesInteger (String.ofList ('+' :: ds)) (ofDigits ds)
  | minus {ds : List Char} (ne_nil : ds ≠ []) (digits : ∀ c ∈ ds, isDigit c) :
    WritesInteger (String.ofList ('-' :: ds)) (-(ofDigits ds : ℤ))

/-- Every natural number is written by its digits. -/
theorem writesInteger_digits (n : ℕ) : WritesInteger (String.ofList (digits n)) n := by
  have h := WritesInteger.unsigned (digits_ne_nil n) (isDigit_digits n)
  rwa [ofDigits_digits] at h

theorem rel_writesInteger_of_eq {ι : Type} {t : ι → Option String} {n : ι → Option ℕ}
    (h : ∀ k, t k = (n k).map fun n => String.ofList (digits n)) (k : ι) :
    Option.Rel (fun t (n : ℕ) => WritesInteger t n) (t k) (n k) := by
  rw [h]
  cases n k with
  | none => exact .none
  | some n => exact .some (writesInteger_digits n)

/-- A text reads neither as a truth value nor as a number. -/
structure IsPlainText (t : String) : Prop where
  not_true : lowerCaseText t ≠ "true"
  not_false : lowerCaseText t ≠ "false"
  not_integer : SettingValue.readInteger? t.toList = none
  not_real : Binary64.ofChars? t.toList = none

instance (t : String) : Decidable (IsPlainText t) :=
  decidable_of_iff (lowerCaseText t ≠ "true" ∧ lowerCaseText t ≠ "false" ∧
    SettingValue.readInteger? t.toList = none ∧ Binary64.ofChars? t.toList = none)
    ⟨fun ⟨h₁, h₂, h₃, h₄⟩ => ⟨h₁, h₂, h₃, h₄⟩, fun ⟨h₁, h₂, h₃, h₄⟩ => ⟨h₁, h₂, h₃, h₄⟩⟩

namespace SettingValue

/-- What an integer sets: itself if 64 bits hold it with its sign, else the double nearest to
it. -/
def ofInteger (n : ℤ) : SettingValue :=
  if -2 ^ 63 ≤ n ∧ n < 2 ^ 63 then .integer n else .real (Binary64.ofPower10 (n < 0) n.natAbs 0)

variable {t : String} {n : ℤ} {ds : List Char}

theorem ofText_of_isPlainText (h : IsPlainText t) : ofText t = .text t := by
  rw [ofText]
  split
  · exact absurd ‹_› h.not_true
  · exact absurd ‹_› h.not_false
  · rw [h.not_integer, h.not_real]

theorem not_upper_of_isDigit {c : Char} (hc : isDigit c) : ¬ ('A' ≤ c ∧ c ≤ 'Z') := by
  have hbounds := isDigit_iff.mp hc
  rintro ⟨hA, -⟩
  have hA : 65 ≤ c.toNat := hA
  omega

/-- A digit is its own lower case. -/
theorem lowerCase_of_isDigit {c : Char} (hc : isDigit c) : lowerCase c = c := by
  have hkelvin : c ≠ '\u212a' := ne_of_isDigit hc rfl
  rw [lowerCase, if_neg (not_upper_of_isDigit hc), if_neg hkelvin]

/-- A character that the text of an integer can begin with. -/
def opensInteger (c : Char) : Bool := isDigit c || c == '+' || c == '-'

/-- The text of an integer begins with a digit or a sign, and so is no word. -/
theorem lowerCaseText_ne_of_writesInteger (h : WritesInteger t n) {word : String}
    (hword : word.toList.head?.any opensInteger = false) : lowerCaseText t ≠ word := by
  rintro rfl
  rw [lowerCaseText, String.toList_ofList, List.head?_map] at hword
  cases h with
  | @unsigned ds hds_ne hds =>
    obtain ⟨c, ds, rfl⟩ := List.exists_cons_of_ne_nil hds_ne
    have hc : isDigit c := hds c List.mem_cons_self
    simp [opensInteger, lowerCase_of_isDigit hc, hc] at hword
  | plus hds_ne hds =>
    have hsign : opensInteger (lowerCase '+') := by decide
    exact absurd hword (by simp [hsign])
  | minus hds_ne hds =>
    have hsign : opensInteger (lowerCase '-') := by decide
    exact absurd hword (by simp [hsign])

theorem readInteger?_of_writesInteger (h : WritesInteger t n) :
    readInteger? t.toList = if -2 ^ 63 ≤ n ∧ n < 2 ^ 63 then some n else none := by
  have hlimit : Nat.pow 2 63 = 2 ^ 63 := rfl
  cases h with
  | @unsigned ds hne hds =>
    rw [String.toList_ofList, readInteger?, readSigned?_of_isDigit _ hds,
      readNat?_of_isDigit _ hne hds, hlimit]
    · by_cases hlt : ofDigits ds < 2 ^ 63
      · rw [if_pos hlt, if_pos (by omega)]
        rfl
      · rw [if_neg hlt, if_neg (by omega)]
        rfl
    · exact ne_cons_of_isDigit rfl hds
  | @plus ds hne hds =>
    rw [String.toList_ofList, readInteger?, readSigned?, readNat?_of_isDigit _ hne hds, hlimit]
    · by_cases hlt : ofDigits ds < 2 ^ 63
      · rw [if_pos hlt, if_pos (by omega)]
        rfl
      · rw [if_neg hlt, if_neg (by omega)]
        rfl
    · simp
  | @minus ds hne hds =>
    rw [String.toList_ofList, readInteger?, readNat?_of_isDigit _ hne hds, hlimit]
    by_cases hlt : ofDigits ds < 2 ^ 63 + 1
    · rw [if_pos hlt, if_pos (by omega)]
      rfl
    · rw [if_neg hlt, if_neg (by omega)]
      rfl

theorem ofMagnitude?_of_isDigit (negative : Bool) (hne : ds ≠ []) (hds : ∀ c ∈ ds, isDigit c) :
    Binary64.ofMagnitude? negative ds = some (Binary64.ofPower10 negative (ofDigits ds) 0) := by
  have hspan : spanDigits ds = (ds, []) := by
    rw [spanDigits, List.span_eq_takeWhile_dropWhile, List.takeWhile_eq_self_iff.mpr hds,
      List.dropWhile_eq_nil_iff.mpr hds]
  simp [Binary64.ofMagnitude?, hspan, hne, Binary64.readPower?]

/-- A run of digits is no name, whatever the case of its letters. -/
theorem ofList_toLower_ne {word : String} (hne : ds ≠ []) (hds : ∀ c ∈ ds, isDigit c)
    (hword : word.toList.head?.any opensInteger = false) :
    String.ofList (ds.map Char.toLower) ≠ word := by
  rintro rfl
  obtain ⟨c, ds, rfl⟩ := List.exists_cons_of_ne_nil hne
  have hc : isDigit c := hds c List.mem_cons_self
  have hlower : c.toLower = c := dif_neg (not_upper_of_isDigit hc)
  rw [String.toList_ofList, List.map_cons, hlower] at hword
  simp [opensInteger, hc] at hword

theorem ofChars?_of_writesInteger (h : WritesInteger t n) :
    Binary64.ofChars? t.toList =
      some (Binary64.ofPower10 (t.toList.head? = some '-') n.natAbs 0) := by
  cases h with
  | @unsigned ds hne hds =>
    have hminus : ds.head? ≠ some '-' := fun h =>
      absurd (hds '-' (List.mem_of_mem_head? h)) (by decide)
    rw [String.toList_ofList, Binary64.ofChars?]
    · split
      iterate 3 exact absurd ‹_› (ofList_toLower_ne hne hds (by decide +kernel))
      simpa [hminus] using ofMagnitude?_of_isDigit false hne hds
    · exact ne_cons_of_isDigit rfl hds
    · exact ne_cons_of_isDigit rfl hds
  | @plus ds hne hds =>
    rw [String.toList_ofList, Binary64.ofChars?]
    split
    iterate 3 exact absurd ‹_› (ofList_toLower_ne hne hds (by decide +kernel))
    exact ofMagnitude?_of_isDigit false hne hds
  | @minus ds hne hds =>
    rw [String.toList_ofList, Binary64.ofChars?]
    split
    iterate 3 exact absurd ‹_› (ofList_toLower_ne hne hds (by decide +kernel))
    rw [Int.natAbs_neg]
    exact ofMagnitude?_of_isDigit true hne hds

/-- Only texts with a sign write negative integers. -/
theorem head?_of_writesInteger (h : WritesInteger t n) (hn : n ≠ 0) :
    t.toList.head? = some '-' ↔ n < 0 := by
  cases h with
  | @unsigned ds hne hds =>
    have hminus : ds.head? ≠ some '-' := fun h =>
      absurd (hds '-' (List.mem_of_mem_head? h)) (by decide)
    rw [String.toList_ofList]
    exact iff_of_false hminus (by omega)
  | plus hne hds =>
    rw [String.toList_ofList]
    exact iff_of_false (by simp) (by omega)
  | minus hne hds =>
    rw [String.toList_ofList]
    exact iff_of_true rfl (by omega)

/-- **A text that writes an integer sets it.** -/
theorem ofText_of_writesInteger (h : WritesInteger t n) : ofText t = ofInteger n := by
  have htrue : lowerCaseText t ≠ "true" :=
    lowerCaseText_ne_of_writesInteger h (by decide +kernel)
  have hfalse : lowerCaseText t ≠ "false" :=
    lowerCaseText_ne_of_writesInteger h (by decide +kernel)
  rw [ofText, ofInteger]
  split
  · exact absurd ‹_› htrue
  · exact absurd ‹_› hfalse
  · rw [readInteger?_of_writesInteger h]
    by_cases hrange : -2 ^ 63 ≤ n ∧ n < 2 ^ 63
    · rw [if_pos hrange, if_pos hrange]
    · have hzero : n ≠ 0 := fun hn => hrange (hn ▸ by decide)
      rw [if_neg hrange, if_neg hrange, ofChars?_of_writesInteger h,
        decide_eq_decide.mpr (head?_of_writesInteger h hzero)]

theorem ofText_of_writesInteger_nat {n : ℕ} (h : WritesInteger t n) (hn : n < 2 ^ 63) :
    ofText t = .integer n := by
  rw [ofText_of_writesInteger h, ofInteger, if_pos (by omega)]

/-- A JSON integer sets itself, too. -/
theorem ofJson_integer (hn : -2 ^ 63 ≤ n) : ofJson (.integer n) = ofInteger n := by
  have hlimit : Int.pow 2 63 = 2 ^ 63 := rfl
  rw [ofJson, ofInteger, hlimit]
  by_cases hroom : n < 2 ^ 63
  · rw [if_pos hroom, if_pos ⟨hn, hroom⟩]
  · have habs : n.natAbs = n.toNat := by omega
    rw [if_neg hroom, if_neg fun h => hroom h.2, decide_eq_false (by omega), habs,
      Binary64.ofPower10_zero]

theorem ofText_ne_table (t : String) (b : Bool) : ofText t ≠ .table b := by
  rw [ofText]
  split
  · simp
  · simp
  · cases readInteger? t.toList with
    | some n => simp
    | none => cases Binary64.ofChars? t.toList <;> simp

theorem ofInteger_ne_table (n : ℤ) (b : Bool) : ofInteger n ≠ .table b := by
  rw [ofInteger]
  split <;> simp

end SettingValue

end MarketFeed
