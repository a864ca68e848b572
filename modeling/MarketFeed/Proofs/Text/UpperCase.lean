import Mathlib.Data.List.Induction
import MarketFeed.Text.Blank
import MarketFeed.Text.UpperCase

/-!
# Upper-case forms

The upper-case form of a text is its own upper-case form: whatever the mapping puts in place of a
character is left alone by it. Nor does the mapping bring white space or a comma into a text.

Both are facts about two sets of code points, those that stand in place of others and those that
must not, which have over a thousand members each. They are compared all at once, as the bits of two
numbers.

## Main definitions

* `bitsOf ns`: some code points as the bits of a number
* `forms`: the code points that the mapping puts in place of others
* `barred`: the code points that the mapping replaces, those of white space and that of the comma

## Main results

* `not_mem_barred`: no form is barred
* `upperCase_cases`: the form of a character is the character itself, or made of forms
* `upperCaseText_upperCaseText`: upper case is stable
-/

namespace MarketFeed.Text

variable {c d : Char} {cs : List Char} {n : ℕ} {ns ms : List ℕ} {r : CaseRun}

/-! ## Sets of code points -/

/-- Some code points as the bits of a number. -/
def bitsOf (ns : List ℕ) : ℕ := ns.foldr (fun n bits => Nat.pow 2 n ||| bits) 0

theorem testBit_bitsOf : (bitsOf ns).testBit n = decide (n ∈ ns) := by
  induction ns with
  | nil => simp [bitsOf]
  | cons m ns ih =>
    have hcons : bitsOf (m :: ns) = 2 ^ m ||| bitsOf ns := rfl
    rw [hcons, Nat.testBit_or, Nat.testBit_two_pow, ih]
    by_cases hm : m = n
    · simp [hm]
    · simp [hm, Ne.symm hm]

/-- Sets whose bits have nothing in common have no common member. -/
theorem not_mem_of_bitsOf (h : bitsOf ns &&& bitsOf ms = 0) (hn : n ∈ ns) : n ∉ ms := by
  intro hm
  have hbit := Nat.testBit_and (bitsOf ns) (bitsOf ms) n
  rw [h, testBit_bitsOf, testBit_bitsOf, decide_eq_true hn, decide_eq_true hm,
    Nat.zero_testBit] at hbit
  exact Bool.false_ne_true hbit

/-- the code points of a run, one after another -/
def CaseRun.letters (r : CaseRun) : List ℕ :=
  (List.range ((r.last - r.first) / r.step + 1)).map fun k => r.first + r.step * k

theorem CaseRun.mem_letters (h : r.covers n) : n ∈ r.letters := by
  simp only [CaseRun.covers, Bool.and_eq_true, decide_eq_true_eq, beq_iff_eq] at h
  obtain ⟨⟨hfirst, hlast⟩, hstep⟩ := h
  refine List.mem_map.mpr ⟨(n - r.first) / r.step, List.mem_range.mpr ?_, ?_⟩
  · exact Nat.lt_succ_of_le (Nat.div_le_div_right (Nat.sub_le_sub_right hlast _))
  · rw [Nat.mul_div_cancel' (Nat.dvd_of_mod_eq_zero hstep)]
    omega

/-- the code point that stands in place of one of a run -/
def CaseRun.form (r : CaseRun) (n : ℕ) : ℕ := (n + r.offset).toNat

/-- The code points that the mapping puts in place of others. -/
def forms : List ℕ :=
  caseRuns.flatMap (fun r => r.letters.map r.form) ++ caseExpansions.flatMap (·.2)

/-- the runs of white space -/
def blankRuns : List CaseRun := blanks.map fun b => ⟨b.1, b.2, 1, 0⟩

/-- The code points that the mapping replaces, those of white space and that of the comma. -/
def barred : List ℕ :=
  caseRuns.flatMap CaseRun.letters ++ caseExpansions.map (·.1) ++
    blankRuns.flatMap CaseRun.letters ++ [','.toNat]

/-- **No form is barred.** -/
theorem not_mem_barred (h : n ∈ forms) : n ∉ barred :=
  not_mem_of_bitsOf (by decide +kernel : bitsOf forms &&& bitsOf barred = 0) h

theorem isValidChar_of_mem_forms : ∀ n ∈ forms, n.isValidChar := by decide +kernel

theorem form_mem_forms (hr : r ∈ caseRuns) (hn : r.covers n) : r.form n ∈ forms :=
  List.mem_append_left _ (List.mem_flatMap.mpr
    ⟨r, hr, List.mem_map_of_mem (CaseRun.mem_letters hn)⟩)

theorem mem_barred_of_covers (hr : r ∈ caseRuns) (hn : r.covers n) : n ∈ barred := by
  have hletter : n ∈ caseRuns.flatMap CaseRun.letters :=
    List.mem_flatMap.mpr ⟨r, hr, CaseRun.mem_letters hn⟩
  simp only [barred, List.mem_append]
  exact .inl (.inl (.inl hletter))

theorem mem_barred_of_expansion {e : ℕ × List ℕ} (he : e ∈ caseExpansions) : e.1 ∈ barred := by
  have hkey : e.1 ∈ caseExpansions.map (·.1) := List.mem_map_of_mem he
  simp only [barred, List.mem_append]
  exact .inl (.inl (.inr hkey))

theorem mem_barred_of_blank (h : inRuns blanks n) : n ∈ barred := by
  obtain ⟨b, hb, hn⟩ := List.any_eq_true.mp h
  have hcovers : CaseRun.covers ⟨b.1, b.2, 1, 0⟩ n := by
    simpa [CaseRun.covers, Nat.mod_one] using hn
  have hblank : n ∈ blankRuns.flatMap CaseRun.letters :=
    List.mem_flatMap.mpr ⟨_, List.mem_map_of_mem hb, CaseRun.mem_letters hcovers⟩
  simp only [barred, List.mem_append]
  exact .inl (.inr hblank)

theorem comma_mem_barred : ','.toNat ∈ barred := List.mem_append_right _ List.mem_cons_self

/-! ## Characters -/

theorem toNat_ofNat_of_isValidChar (h : n.isValidChar) : (Char.ofNat n).toNat = n := by
  rw [Char.ofNat, dif_pos h]
  rfl

/-- A form is its own upper-case form. -/
theorem upperCase_of_mem_forms (h : n ∈ forms) : upperCase (Char.ofNat n) = [Char.ofNat n] := by
  have hexpansion : caseExpansions.find? (fun e => e.1 == n) = none := by
    refine List.find?_eq_none.mpr fun e he heq => not_mem_barred h ?_
    rw [← beq_iff_eq.mp heq]
    exact mem_barred_of_expansion he
  have hrun : caseRuns.find? (fun r => r.covers n) = none :=
    List.find?_eq_none.mpr fun r hr hcovers => not_mem_barred h (mem_barred_of_covers hr hcovers)
  rw [upperCase, toNat_ofNat_of_isValidChar (isValidChar_of_mem_forms n h), hexpansion, hrun]

/-- **The upper-case form of a character is the character itself, or made of forms.** -/
theorem upperCase_cases (c : Char) :
    upperCase c = [c] ∨
      upperCase c ≠ [] ∧ ∀ d ∈ upperCase c, ∃ n ∈ forms, d = Char.ofNat n := by
  have hfull : ∀ e ∈ caseExpansions, e.2 ≠ [] := by decide +kernel
  rw [upperCase]
  split
  next e he =>
    have hmem := List.mem_of_find?_eq_some he
    refine .inr ⟨fun hnil => hfull e hmem (List.map_eq_nil_iff.mp hnil), fun d hd => ?_⟩
    obtain ⟨n, hn, rfl⟩ := List.mem_map.mp hd
    exact ⟨n, List.mem_append_right _ (List.mem_flatMap.mpr ⟨e, hmem, hn⟩), rfl⟩
  next =>
    split
    next r hr =>
      have hcovers : r.covers c.toNat :=
        List.find?_some (p := fun r : CaseRun => r.covers c.toNat) hr
      refine .inr ⟨List.cons_ne_nil _ _, fun d hd => ⟨r.form c.toNat, ?_, ?_⟩⟩
      · exact form_mem_forms (List.mem_of_find?_eq_some hr) hcovers
      · exact List.mem_singleton.mp hd
    next => exact .inl rfl

theorem upperCase_ne_nil (c : Char) : upperCase c ≠ [] := by
  rcases upperCase_cases c with h | ⟨h, -⟩
  · exact h ▸ List.cons_ne_nil _ _
  · exact h

/-- What an upper-case form is made of is stable. -/
theorem upperCase_of_mem (hd : d ∈ upperCase c) : upperCase d = [d] := by
  rcases upperCase_cases c with h | ⟨-, h⟩
  · rw [h, List.mem_singleton] at hd
    rwa [hd]
  · obtain ⟨n, hn, rfl⟩ := h d hd
    exact upperCase_of_mem_forms hn

/-- Only white space has white space in its upper-case form. -/
theorem isBlank_of_mem (hd : d ∈ upperCase c) (hc : isBlank c = false) : isBlank d = false := by
  rcases upperCase_cases c with h | ⟨-, h⟩
  · rw [h, List.mem_singleton] at hd
    rwa [hd]
  · obtain ⟨n, hn, rfl⟩ := h d hd
    rw [isBlank, toNat_ofNat_of_isValidChar (isValidChar_of_mem_forms n hn), Bool.eq_false_iff]
    exact fun hblank => not_mem_barred hn (mem_barred_of_blank hblank)

/-- Only a comma has a comma in its upper-case form. -/
theorem ne_comma_of_mem (hd : d ∈ upperCase c) (hc : c ≠ ',') : d ≠ ',' := by
  rcases upperCase_cases c with h | ⟨-, h⟩
  · rw [h, List.mem_singleton] at hd
    rwa [hd]
  · obtain ⟨n, hn, rfl⟩ := h d hd
    intro hcomma
    have hcode := toNat_ofNat_of_isValidChar (isValidChar_of_mem_forms n hn)
    rw [hcomma] at hcode
    exact not_mem_barred hn (hcode ▸ comma_mem_barred)

/-! ## Texts -/

theorem upperCaseText_eq_self (h : ∀ c ∈ cs, upperCase c = [c]) : upperCaseText cs = cs := by
  induction cs with
  | nil => rfl
  | cons c cs ih =>
    rw [upperCaseText, List.flatMap_cons, h c List.mem_cons_self]
    exact congrArg (c :: ·) (ih fun c hc => h c (List.mem_cons_of_mem _ hc))

/-- **Upper case is stable.** -/
theorem upperCaseText_upperCaseText (cs : List Char) :
    upperCaseText (upperCaseText cs) = upperCaseText cs := by
  refine upperCaseText_eq_self fun d hd => ?_
  obtain ⟨c, -, hd⟩ := List.mem_flatMap.mp hd
  exact upperCase_of_mem hd

theorem upperCaseText_eq_nil_iff : upperCaseText cs = [] ↔ cs = [] := by
  cases cs with
  | nil => exact Iff.rfl
  | cons c cs => simp [upperCaseText, upperCase_ne_nil]

theorem comma_not_mem_upperCaseText (h : ',' ∉ cs) : ',' ∉ upperCaseText cs := by
  intro hcomma
  obtain ⟨c, hc, hd⟩ := List.mem_flatMap.mp hcomma
  exact ne_comma_of_mem hd (fun heq => h (heq ▸ hc)) rfl

/-- A text that begins with no white space has an upper-case form that does not either. -/
theorem head?_upperCaseText (h : ∀ c ∈ cs.head?, isBlank c = false) :
    ∀ d ∈ (upperCaseText cs).head?, isBlank d = false := by
  cases cs with
  | nil => exact nofun
  | cons c cs =>
    intro d hd
    obtain ⟨d', ds, hform⟩ := List.exists_cons_of_ne_nil (upperCase_ne_nil c)
    rw [upperCaseText, List.flatMap_cons, hform] at hd
    obtain rfl := Option.some.inj hd
    exact isBlank_of_mem (hform ▸ List.mem_cons_self) (h c rfl)

/-- A text that ends with no white space has an upper-case form that does not either. -/
theorem getLast?_upperCaseText (h : ∀ c ∈ cs.getLast?, isBlank c = false) :
    ∀ d ∈ (upperCaseText cs).getLast?, isBlank d = false := by
  cases cs using List.reverseRecOn with
  | nil => exact nofun
  | append_singleton cs c =>
    intro d hd
    have hsplit : upperCaseText (cs ++ [c]) = upperCaseText cs ++ upperCase c := by
      simp [upperCaseText]
    rw [hsplit, List.getLast?_append,
      List.getLast?_eq_some_getLast (upperCase_ne_nil c), Option.some_or] at hd
    obtain rfl := Option.some.inj hd
    exact isBlank_of_mem (List.getLast_mem _) (h c List.getLast?_concat)

end MarketFeed.Text
