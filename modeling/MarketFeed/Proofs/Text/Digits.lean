import Mathlib.Data.Nat.Digits.Lemmas
import MarketFeed.Text.Digit

/-!
# Runs of digits

A number and the digits that write it determine each other, leading zeros apart. Readers of
numbers stop at the first character that is no digit, so what stands behind a number must not begin
with one.

## Main definitions

* `digitsFrom n ds`: the number that the digits of `n` and `ds` write together
* `NoDigit cs`: a text does not begin with a digit

## Main results

* `ofDigits_digits`, `ofDigits_padded`: the digits of a number write it
* `ofDigits_lt`: a run of digits writes a number below ten to the power of its length
* `length_padded`: a number below `10 ^ width` is filled up to exactly `width` digits
* `takeWhile_isDigit_append`: the digits of a text end where no digit stands
-/

namespace MarketFeed.Text

variable {c : Char} {ds cs rest : List Char} {n k width : ℕ}

/-! ## Digits -/

theorem isDigit_iff : isDigit c ↔ 48 ≤ c.toNat ∧ c.toNat ≤ 57 := by
  simp only [isDigit, Bool.and_eq_true, decide_eq_true_eq]
  exact Iff.rfl

/-- A character of a kind that no digit is of is no digit. -/
theorem ne_of_isDigit {c' : Char} (h : isDigit c) (h' : isDigit c' = false) : c ≠ c' := by
  rintro rfl
  exact absurd h (by simp [h'])

theorem digitValue_lt (h : isDigit c) : digitValue c < 10 := by
  have hbounds := isDigit_iff.mp h
  change c.toNat - 48 < 10
  omega

theorem isDigit_digits (n : ℕ) : ∀ c ∈ digits n, isDigit c := by
  intro c hc
  have hdigit : c.isDigit = true := Nat.isDigit_of_mem_toDigits (by decide) (by decide) hc
  exact isDigit_iff.mpr (Char.isDigit_iff_toNat.mp hdigit)

theorem digits_ne_nil (n : ℕ) : digits n ≠ [] := Nat.toDigits_ne_nil

/-- Only zero is written with a zero in front. -/
theorem digits_head (hn : n ≠ 0) : (digits n).head? ≠ some '0' := by
  induction n using Nat.strong_induction_on with
  | _ n ih =>
    by_cases hlt : n < 10
    · have hone : digits n = [n.digitChar] := Nat.toDigits_of_lt_base hlt
      have hchar : ∀ d < 10, d ≠ 0 → Nat.digitChar d ≠ '0' := by decide
      rw [hone, List.head?_cons]
      exact fun h => hchar n hlt hn (Option.some.inj h)
    · have hsplit : digits n = digits (n / 10) ++ [(n % 10).digitChar] :=
        Nat.toDigits_of_base_le (by decide) (Nat.le_of_not_lt hlt)
      rw [hsplit, List.head?_append_of_ne_nil _ (digits_ne_nil _)]
      exact ih (n / 10) (by omega) (by omega)

theorem length_digits_le_iff (hk : 0 < k) : (digits n).length ≤ k ↔ n < 10 ^ k :=
  Nat.length_toDigits_le_iff (by decide) hk

/-! ## Values -/

/-- The number that the digits of `n`, followed by some others, write. -/
def digitsFrom (n : ℕ) (ds : List Char) : ℕ := ds.foldl (fun n c => 10 * n + digitValue c) n

@[simp] theorem digitsFrom_nil (n : ℕ) : digitsFrom n [] = n := rfl

@[simp] theorem digitsFrom_cons (n : ℕ) (c : Char) (ds : List Char) :
    digitsFrom n (c :: ds) = digitsFrom (10 * n + digitValue c) ds := List.foldl_cons ..

theorem digitsFrom_append (n : ℕ) (ds ds' : List Char) :
    digitsFrom n (ds ++ ds') = digitsFrom (digitsFrom n ds) ds' := List.foldl_append

theorem le_digitsFrom (n : ℕ) (ds : List Char) : n ≤ digitsFrom n ds := by
  induction ds generalizing n with
  | nil => exact Nat.le_refl n
  | cons c ds ih =>
    have hstep : n ≤ 10 * n + digitValue c := by omega
    exact hstep.trans (ih _)

theorem digitsFrom_lt (hds : ∀ c ∈ ds, isDigit c) (n : ℕ) :
    digitsFrom n ds < (n + 1) * 10 ^ ds.length := by
  induction ds generalizing n with
  | nil => simp
  | cons c ds ih =>
    have hc : digitValue c < 10 := digitValue_lt (hds c List.mem_cons_self)
    calc digitsFrom (10 * n + digitValue c) ds
        < (10 * n + digitValue c + 1) * 10 ^ ds.length :=
          ih (fun c hc => hds c (List.mem_cons_of_mem _ hc)) _
      _ ≤ ((n + 1) * 10) * 10 ^ ds.length := Nat.mul_le_mul_right _ (by omega)
      _ = (n + 1) * 10 ^ (ds.length + 1) := by rw [pow_succ', Nat.mul_assoc]

theorem ofDigits_eq (ds : List Char) : ofDigits ds = digitsFrom 0 ds := rfl

/-- **The digits of a number write it.** -/
theorem ofDigits_digits (n : ℕ) : ofDigits (digits n) = n :=
  Nat.ofDigitChars_toDigits (by decide) (by decide)

theorem ofDigits_lt (hds : ∀ c ∈ ds, isDigit c) : ofDigits ds < 10 ^ ds.length := by
  have hlt := digitsFrom_lt hds 0
  rwa [Nat.zero_add, Nat.one_mul] at hlt

theorem digitsFrom_replicate_zero (k : ℕ) : digitsFrom 0 (List.replicate k '0') = 0 := by
  induction k with
  | zero => rfl
  | succ k ih => rwa [List.replicate_succ, digitsFrom_cons]

/-! ## Readers -/

theorem readNat?_of_isDigit (limit : ℕ) (hne : ds ≠ []) (hds : ∀ c ∈ ds, isDigit c) :
    readNat? limit ds = if ofDigits ds < limit then some (ofDigits ds) else none := by
  have hall : ds.all isDigit = true := List.all_eq_true.mpr hds
  simp [readNat?, hne, hall]

/-- A run of digits begins with no other character. -/
theorem ne_cons_of_isDigit (hc : isDigit c = false) (hds : ∀ c ∈ ds, isDigit c) :
    ∀ cs, ds ≠ c :: cs := by
  rintro cs rfl
  exact absurd (hds c List.mem_cons_self) (by simp [hc])

theorem readSigned?_of_isDigit (limit : ℕ) (hds : ∀ c ∈ ds, isDigit c) :
    readSigned? limit ds = readNat? limit ds := by
  rw [readSigned?]
  exact ne_cons_of_isDigit rfl hds

/-! ## Numbers of a width -/

theorem ofDigits_padded (width n : ℕ) : ofDigits (padded width n) = n := by
  rw [padded, ofDigits_eq, digitsFrom_append, digitsFrom_replicate_zero, ← ofDigits_eq,
    ofDigits_digits]

theorem isDigit_padded (width n : ℕ) : ∀ c ∈ padded width n, isDigit c := by
  intro c hc
  rcases List.mem_append.mp hc with hzero | hdigit
  · rw [List.eq_of_mem_replicate hzero]
    rfl
  · exact isDigit_digits n c hdigit

theorem length_padded_eq_max (width n : ℕ) :
    (padded width n).length = max width (digits n).length := by
  rw [padded, List.length_append, List.length_replicate]
  omega

theorem length_padded (hwidth : 0 < width) (h : n < 10 ^ width) :
    (padded width n).length = width := by
  rw [length_padded_eq_max]
  exact max_eq_left ((length_digits_le_iff hwidth).mpr h)

theorem padded_ne_nil (width n : ℕ) : padded width n ≠ [] := by
  rw [padded]
  exact List.append_ne_nil_of_right_ne_nil _ (digits_ne_nil n)

/-! ## Where digits end -/

/-- A text does not begin with a digit. -/
def NoDigit (cs : List Char) : Prop := ∀ c ∈ cs.head?, isDigit c = false

theorem NoDigit.cons (h : isDigit c = false) (cs : List Char) : NoDigit (c :: cs) := by
  rintro c' hc'
  obtain rfl := Option.some.inj hc'
  exact h

theorem NoDigit.nil : NoDigit [] := fun _ h => nomatch h

theorem NoDigit.take (h : NoDigit cs) (k : ℕ) : NoDigit (cs.take k) := by
  cases k with
  | zero => exact .nil
  | succ k =>
    cases cs with
    | nil => exact .nil
    | cons c cs => exact h

theorem takeWhile_isDigit_append (hds : ∀ c ∈ ds, isDigit c) (hrest : NoDigit rest) :
    (ds ++ rest).takeWhile isDigit = ds := by
  rw [List.takeWhile_append_of_pos hds]
  cases rest with
  | nil => exact List.append_nil ds
  | cons c rest =>
    have hc : isDigit c = false := hrest c rfl
    rw [List.takeWhile_cons, hc]
    exact List.append_nil ds

end MarketFeed.Text
