import Mathlib.Data.List.TakeWhile
import MarketFeed.Proofs.Text.Digits
import MarketFeed.Proofs.Toml.Keys

/-!
# TOML documents of integers

The plainest document gives an integer to a name on every line. It is read as it is written, unless
64 bits do not hold one of the integers or a name is repeated. Then it is malformed as a whole, and
nothing of it counts.

## Main definitions

* `integerText n`: the decimal text of an integer
* `linesText ls`: the document of some names and integers

## Main results

* `lex_linesText`: the tokens of such a document
* `readWord_integerText`: the text of an integer is read as it, if 64 bits hold it
* `read_linesText`: what such a document is
-/

namespace MarketFeed.Toml

open Text

variable {c : Char} {w rest ds : List Char} {n : ℤ} {fuel : ℕ} {ts : List Token}
  {ls : List (String × ℤ)}

/-! ## Texts -/

/-- the decimal text of an integer -/
def integerText (n : ℤ) : List Char :=
  if n < 0 then '-' :: digits n.natAbs else digits n.natAbs

/-- the line that gives an integer to a name -/
def lineText (l : String × ℤ) : List Char :=
  l.1.toList ++ ' ' :: '=' :: ' ' :: integerText l.2 ++ ['\n']

/-- the document of some names and integers -/
def linesText (ls : List (String × ℤ)) : String := String.ofList (ls.flatMap lineText)

/-- A text can stand as one word: a name without quotes, or a number. -/
structure IsWord (w : List Char) : Prop where
  ne_nil : w ≠ []
  chars : ∀ c ∈ w, isWordChar c

instance (w : List Char) : Decidable (IsWord w) :=
  decidable_of_iff (w ≠ [] ∧ w.all isWordChar) ⟨fun h => ⟨h.1, List.all_eq_true.mp h.2⟩,
    fun h => ⟨h.ne_nil, List.all_eq_true.mpr h.chars⟩⟩

theorem isWordChar_of_isDigit (hc : isDigit c) : isWordChar c := by
  have hbounds : ('0' ≤ c && c ≤ '9') = true := hc
  simp [isWordChar, hbounds]

theorem isWord_integerText (n : ℤ) : IsWord (integerText n) := by
  have hdigits := isDigit_digits n.natAbs
  rw [integerText]
  split
  · refine ⟨List.cons_ne_nil _ _, List.forall_mem_cons.mpr ⟨by decide, fun c hc => ?_⟩⟩
    exact isWordChar_of_isDigit (hdigits c hc)
  · exact ⟨digits_ne_nil _, fun c hc => isWordChar_of_isDigit (hdigits c hc)⟩

/-! ## Tokens -/

theorem isBlankChar_of_isWordChar (hc : isWordChar c) : isBlankChar c = false := by
  rw [Bool.eq_false_iff]
  intro hblank
  rcases Bool.or_eq_true_iff.mp hblank with h | h
  · exact absurd (eq_of_beq h ▸ hc) (by decide)
  · exact absurd (eq_of_beq h ▸ hc) (by decide)

/-- A word ends where no character of a word stands. -/
theorem lexToken_word (hc : isWordChar c) (hw : ∀ c ∈ w, isWordChar c)
    (hrest : ∀ c ∈ rest.head?, isWordChar c = false) :
    lexToken c (w ++ rest) = some (.word (String.ofList (c :: w)), rest) := by
  have hnone : rest.takeWhile isWordChar = [] ∧ rest.dropWhile isWordChar = rest := by
    cases rest with
    | nil => exact ⟨rfl, rfl⟩
    | cons d rest =>
      have hd : isWordChar d = false := hrest d rfl
      simp [hd]
  unfold lexToken
  split
  iterate 13 exact absurd hc (by decide)
  rw [isBlankChar_of_isWordChar hc, if_neg Bool.false_ne_true, if_pos hc,
    List.takeWhile_append_of_pos hw, List.dropWhile_append_of_pos hw, hnone.1, hnone.2,
    List.append_nil]

/-- One space before a word or an equals sign is a token. -/
theorem lexToken_space (hc : isBlankChar c = false) (rest : List Char) :
    lexToken ' ' (c :: rest) = some (.blank " ", c :: rest) := by
  change some (Token.blank (String.ofList (' ' :: (c :: rest).takeWhile isBlankChar)),
    (c :: rest).dropWhile isBlankChar) = _
  rw [List.takeWhile_cons, List.dropWhile_cons, hc, if_neg Bool.false_ne_true,
    if_neg Bool.false_ne_true]

theorem lexFrom_cons {t : Token} {cs : List Char} (h : lexToken c cs = some (t, rest))
    (fuel : ℕ) : lexFrom (fuel + 1) (c :: cs) = (lexFrom fuel rest).map (t :: ·) := by
  rw [lexFrom, h, Option.bind_eq_bind, Option.bind_some]
  cases hlex : lexFrom fuel rest <;> simp [hlex]

/-- the tokens of a line -/
def lineTokens (l : String × ℤ) : List Token :=
  [.word l.1, .blank " ", .equals, .blank " ", .word (String.ofList (integerText l.2)), .newline]

theorem lexFrom_lineText {l : String × ℤ} (hl : IsWord l.1.toList) (fuel : ℕ) (rest : List Char) :
    lexFrom (fuel + 6) (lineText l ++ rest) = (lexFrom fuel rest).map (lineTokens l ++ ·) := by
  obtain ⟨name, n⟩ := l
  obtain ⟨c, w, hname⟩ := List.exists_cons_of_ne_nil hl.ne_nil
  have hnumber := isWord_integerText n
  obtain ⟨d, v, hdigits⟩ := List.exists_cons_of_ne_nil hnumber.ne_nil
  have hw := hname ▸ hl.chars
  have hv := hdigits ▸ hnumber.chars
  rw [List.forall_mem_cons] at hw hv
  have hd : isBlankChar d = false := isBlankChar_of_isWordChar hv.1
  have hline : lineText (name, n) ++ rest =
      c :: (w ++ ' ' :: '=' :: ' ' :: d :: (v ++ '\n' :: rest)) := by
    change name.toList ++ _ ++ _ ++ _ = _
    rw [hname, hdigits]
    simp
  rw [hline, lexFrom_cons (lexToken_word hw.1 hw.2 (by simp; decide)),
    lexFrom_cons (lexToken_space (by decide) _), lexFrom_cons (rfl : lexToken '=' _ = _),
    lexFrom_cons (lexToken_space hd _), lexFrom_cons (lexToken_word hv.1 hv.2 (by simp; decide)),
    lexFrom_cons (rfl : lexToken '\n' _ = _)]
  have hfirst : String.ofList (c :: w) = name := by rw [← hname, String.ofList_toList]
  simp only [Option.map_map, lineTokens, hfirst, hdigits]
  rfl

theorem lexFrom_lines (hls : ∀ l ∈ ls, IsWord l.1.toList)
    (hfuel : (ls.flatMap lineText).length ≤ fuel) :
    lexFrom fuel (ls.flatMap lineText) = some (ls.flatMap lineTokens) := by
  induction ls generalizing fuel with
  | nil => cases fuel <;> rfl
  | cons l ls ih =>
    rw [List.forall_mem_cons] at hls
    rw [List.flatMap_cons, List.length_append] at hfuel
    have hsix : 6 ≤ (lineText l).length := by
      have hname := List.length_pos_iff.mpr hls.1.ne_nil
      have hdigits := List.length_pos_iff.mpr (isWord_integerText l.2).ne_nil
      simp only [lineText, List.length_append, List.length_cons, List.length_nil]
      omega
    obtain ⟨fuel, rfl⟩ := Nat.exists_eq_add_of_le' (show 6 ≤ fuel by omega)
    rw [List.flatMap_cons, lexFrom_lineText hls.1, ih hls.2 (by omega)]
    rfl

theorem foldLineEnds_eq_self {cs : List Char} (h : '\r' ∉ cs) : foldLineEnds cs = cs := by
  induction cs with
  | nil => rfl
  | cons c cs ih =>
    rw [List.mem_cons, not_or] at h
    rw [foldLineEnds, ih h.2]
    rintro rest rfl
    exact absurd rfl h.1

theorem dropByteOrderMark_eq_self {cs : List Char} (h : '\ufeff' ∉ cs) :
    dropByteOrderMark cs = cs := by
  rw [dropByteOrderMark]
  rintro rest rfl
  exact h List.mem_cons_self

theorem mem_lineText {l : String × ℤ} (hl : IsWord l.1.toList) (hc : c ∈ lineText l) :
    isWordChar c ∨ c ∈ [' ', '=', '\n'] := by
  have hdigits := (isWord_integerText l.2).chars c
  simp only [lineText, List.mem_append, List.mem_cons, List.not_mem_nil, or_false] at hc ⊢
  have hname := hl.chars c
  tauto

/-- **The tokens of a document of integers.** -/
theorem lex_linesText (hls : ∀ l ∈ ls, IsWord l.1.toList) :
    lex (linesText ls) = some (ls.flatMap lineTokens) := by
  have hother {c : Char} (hword : isWordChar c = false) (hc : c ∉ [' ', '=', '\n']) :
      c ∉ ls.flatMap lineText := by
    intro hmem
    obtain ⟨l, hl, hcl⟩ := List.mem_flatMap.mp hmem
    rcases mem_lineText (hls l hl) hcl with h | h
    · rw [hword] at h
      cases h
    · exact hc h
  have hmark := dropByteOrderMark_eq_self (hother (c := '\ufeff') (by decide) (by decide))
  have hreturn := foldLineEnds_eq_self (hother (c := '\r') (by decide) (by decide))
  rw [lex, linesText, String.toList_ofList]
  simp only [hmark, hreturn]
  exact lexFrom_lines hls le_rfl

/-! ## Values -/

theorem hexValue?_of_isDigit (hc : isDigit c) : hexValue? c = some (digitValue c) :=
  if_pos (by simpa [isDigit] using hc)

theorem isDigitOf_of_isDigit (hc : isDigit c) : isDigitOf 10 c := by
  rw [isDigitOf, hexValue?_of_isDigit hc]
  exact decide_eq_true (digitValue_lt hc)

theorem valueOf_of_isDigit (hds : ∀ c ∈ ds, isDigit c) : valueOf 10 ds = ofDigits ds := by
  have hfold : ∀ n : ℕ, ds.foldl (fun n d => 10 * n + (hexValue? d).getD 0) n =
      digitsFrom n ds := by
    induction ds with
    | nil => exact fun n => rfl
    | cons c ds ih =>
      rw [List.forall_mem_cons] at hds
      intro n
      rw [List.foldl_cons, hexValue?_of_isDigit hds.1, digitsFrom_cons]
      exact ih hds.2 _
  exact hfold 0

/-- Digits behind the first one are read to the end. -/
theorem scanDigits_of_isDigit (hds : ∀ c ∈ ds, isDigit c) :
    scanDigits false 10 false false false ds = some (ds, []) := by
  induction ds with
  | nil => rfl
  | cons c ds ih =>
    rw [List.forall_mem_cons] at hds
    simp [scanDigits, isDigitOf_of_isDigit hds.1, ih hds.2]

/-- The digits of a number are read to the end: only zero begins with a zero. -/
theorem digitsOf_digits (n : ℕ) : digitsOf false 10 (digits n) = some (digits n, []) := by
  by_cases hn : n = 0
  · rw [hn]
    decide
  · have hds := isDigit_digits n
    have hhead := digits_head hn
    obtain ⟨c, ds, hdigits⟩ := List.exists_cons_of_ne_nil (digits_ne_nil n)
    rw [hdigits] at hds hhead ⊢
    rw [List.forall_mem_cons] at hds
    have hc : c ≠ '0' := by simpa using hhead
    simp [digitsOf, scanDigits, hc, isDigitOf_of_isDigit hds.1, scanDigits_of_isDigit hds.2]

theorem readInteger_integerText (n : ℤ) :
    readInteger true false 10 (integerText n) = integerOf (n < 0) n.natAbs := by
  have hds := isDigit_digits n.natAbs
  rw [integerText]
  by_cases hn : n < 0
  · simp [hn, readInteger, splitSign, digitsOf_digits, valueOf_of_isDigit hds, ofDigits_digits]
  · have hsplit : splitSign (digits n.natAbs) = (false, digits n.natAbs) := by
      rw [splitSign]
      · exact ne_cons_of_isDigit rfl hds
      · exact ne_cons_of_isDigit rfl hds
    simp [hn, readInteger, hsplit, digitsOf_digits, valueOf_of_isDigit hds, ofDigits_digits]

theorem integerOf_natAbs (n : ℤ) :
    integerOf (n < 0) n.natAbs =
      if -2 ^ 63 ≤ n ∧ n < 2 ^ 63 then some (.integer n) else none := by
  have hlimit : Nat.pow 2 63 = 2 ^ 63 := rfl
  rw [integerOf, hlimit]
  by_cases hn : n < 0
  · have hneg : -(n.natAbs : ℤ) = n := by omega
    rw [decide_eq_true hn, if_pos rfl, hneg]
    exact if_congr (by omega) rfl rfl
  · have hpos : (n.natAbs : ℤ) = n := by omega
    rw [decide_eq_false hn, if_neg Bool.false_ne_true, hpos]
    exact if_congr (by omega) rfl rfl

theorem mem_integerText (hc : c ∈ integerText n) : isDigit c ∨ c = '-' := by
  rw [integerText] at hc
  split at hc
  · rcases List.mem_cons.mp hc with rfl | hc
    · exact .inr rfl
    · exact .inl (isDigit_digits _ c hc)
  · exact .inl (isDigit_digits _ c hc)

/-- A sign stands only in front. -/
theorem mem_drop_integerText (hc : c ∈ (integerText n).drop 1) : isDigit c := by
  rw [integerText] at hc
  split at hc
  · exact isDigit_digits _ c hc
  · exact isDigit_digits _ c (List.mem_of_mem_drop hc)

theorem notMem_integerText (hdigit : isDigit c = false) (hminus : c ≠ '-') :
    c ∉ integerText n := by
  intro hc
  rcases mem_integerText hc with h | h
  · rw [hdigit] at h
    cases h
  · exact hminus h

/-- The text of an integer is no word with letters. -/
theorem ofList_integerText_ne {w : String} (hw : w.toList.any fun c => !isDigit c && c != '-') :
    String.ofList (integerText n) ≠ w := by
  rintro rfl
  rw [String.toList_ofList, List.any_eq_true] at hw
  obtain ⟨c, hc, hletter⟩ := hw
  rw [Bool.and_eq_true, Bool.not_eq_true', bne_iff_ne] at hletter
  exact notMem_integerText hletter.1 hletter.2 hc

theorem looksLikeDate_integerText (n : ℤ) :
    looksLikeDate (String.ofList (integerText n)) = false := by
  have hT : (integerText n).contains 'T' = false := by
    simpa using notMem_integerText (c := 'T') (by decide) (by decide)
  have ht : (integerText n).contains 't' = false := by
    simpa using notMem_integerText (c := 't') (by decide) (by decide)
  have hminus : ((integerText n).drop 1).contains '-' = false := by
    rw [Bool.eq_false_iff]
    intro h
    exact absurd (mem_drop_integerText (List.contains_iff_mem.mp h)) (by decide)
  rw [looksLikeDate, String.toList_ofList]
  simp only [hT, ht, hminus, Bool.false_and, Bool.or_false]

theorem readNumber_integerText (n : ℤ) (ts : List Token) :
    readNumber (String.ofList (integerText n)) (.newline :: ts) =
      (integerOf (n < 0) n.natAbs).map (·, .newline :: ts) := by
  have hx (c : Char) (hc : isDigit c = false) (cs : List Char) :
      integerText n ≠ '0' :: c :: cs := by
    intro h
    have hmem : c ∈ (integerText n).drop 1 := by
      rw [h]
      exact List.mem_cons_self
    rw [mem_drop_integerText hmem] at hc
    cases hc
  have he : (integerText n).contains 'e' = false := by
    simpa using notMem_integerText (c := 'e') (by decide) (by decide)
  have hE : (integerText n).contains 'E' = false := by
    simpa using notMem_integerText (c := 'E') (by decide) (by decide)
  rw [readNumber, String.toList_ofList]
  split
  · exact absurd ‹_› (hx 'x' (by decide) _)
  · exact absurd ‹_› (hx 'o' (by decide) _)
  · exact absurd ‹_› (hx 'b' (by decide) _)
  · rw [he, hE]
    simp only [Bool.or_false, Bool.false_eq_true, if_false]
    split
    iterate 4 exact absurd ‹_› (ofList_integerText_ne (by decide +kernel))
    rw [readInteger_integerText]

/-- **The text of an integer is read as it, if 64 bits hold it.** -/
theorem readWord_integerText (n : ℤ) (ts : List Token) :
    readWord (String.ofList (integerText n)) (.newline :: ts) =
      if -2 ^ 63 ≤ n ∧ n < 2 ^ 63 then some (.integer n, .newline :: ts) else none := by
  have hhead : (integerText n).head?.any fun c => c == '-' || ('0' ≤ c && c ≤ '9') := by
    obtain ⟨c, cs, hcs⟩ := List.exists_cons_of_ne_nil (isWord_integerText n).ne_nil
    rw [hcs]
    rcases mem_integerText (hcs ▸ List.mem_cons_self : c ∈ integerText n) with h | h
    · exact Bool.or_eq_true_iff.mpr (.inr h)
    · exact Bool.or_eq_true_iff.mpr (.inl (beq_iff_eq.mpr h))
  rw [readWord, String.toList_ofList]
  · rw [if_pos (.inr (.inr hhead)), looksLikeDate_integerText, if_neg Bool.false_ne_true,
      readNumber_integerText, integerOf_natAbs]
    split <;> rfl
  · exact ofList_integerText_ne (by decide +kernel)
  · exact ofList_integerText_ne (by decide +kernel)
  · exact nofun

/-! ## Documents -/

/-- the entries that a document of integers has -/
def entriesOf (ls : List (String × ℤ)) : List (String × Entry) :=
  ls.map fun l => (l.1, .value (.integer l.2))

/-- the table that a document of integers is -/
def membersOf (ls : List (String × ℤ)) : Members := ls.map fun l => (l.1, .integer l.2)

/-- A line adds an entry to the section in progress. -/
theorem readSections_line (fuel : ℕ) (s : Section) (l : String × ℤ) (ts : List Token) :
    readSections (fuel + 1) s (lineTokens l ++ ts) =
      if -2 ^ 63 ≤ l.2 ∧ l.2 < 2 ^ 63 then
        readSections fuel { s with entries := s.entries ++ entriesOf [l] } ts
      else none := by
  have hkey : readKeyEquals (lineTokens l ++ ts) =
      some ([l.1], .word (String.ofList (integerText l.2)) :: .newline :: ts) := by
    simp [lineTokens, readKeyEquals, readKey, Token.key?, skipBlank]
  have hskip : (lineTokens l ++ ts).dropWhile Token.isFiller = lineTokens l ++ ts := by
    simp [lineTokens, Token.isFiller]
  have hvalue (fuel : ℕ) : readValue (2 * fuel + 1)
      (.word (String.ofList (integerText l.2)) :: .newline :: ts) =
        readWord (String.ofList (integerText l.2)) (.newline :: ts) := by
    rw [readValue]
  rw [readSections, hskip]
  split
  · rename_i hnil
    cases hnil
  · rename_i hbracket
    cases hbracket
  · rw [hkey]
    simp only [Option.bind_eq_bind, Option.bind_some, hvalue, readWord_integerText]
    by_cases hl : -2 ^ 63 ≤ l.2 ∧ l.2 < 2 ^ 63
    · simp only [if_pos hl, Option.bind_some, addEntry, endLine, skipBlank, entriesOf]
      rfl
    · simp only [if_neg hl, Option.bind_none]

theorem readSections_lines (hfuel : ls.length < fuel) (s : Section) :
    readSections fuel s (ls.flatMap lineTokens) =
      if ∀ l ∈ ls, -2 ^ 63 ≤ l.2 ∧ l.2 < 2 ^ 63 then
        some [{ s with entries := s.entries ++ entriesOf ls }]
      else none := by
  induction ls generalizing fuel s with
  | nil =>
    obtain ⟨fuel, rfl⟩ := Nat.exists_eq_add_of_le' hfuel
    simp [readSections, entriesOf]
  | cons l ls ih =>
    obtain ⟨fuel, rfl⟩ := Nat.exists_eq_add_of_le' (Nat.one_le_of_lt hfuel)
    rw [List.length_cons] at hfuel
    rw [List.flatMap_cons, readSections_line, ih (by omega)]
    by_cases hl : -2 ^ 63 ≤ l.2 ∧ l.2 < 2 ^ 63
    · rw [if_pos hl]
      refine if_congr ?_ ?_ rfl
      · rw [List.forall_mem_cons]
        exact (and_iff_right hl).symm
      · simp [entriesOf]
    · rw [if_neg hl, if_neg fun h => hl (h l List.mem_cons_self)]

theorem closeEntries_entriesOf (ls : List (String × ℤ)) :
    closeEntries (entriesOf ls) =
      if (ls.map Prod.fst).Nodup then some (membersOf ls) else none := by
  induction ls with
  | nil => rfl
  | cons l ls ih =>
    have hcons : closeEntries (entriesOf (l :: ls)) = (closeEntries (entriesOf ls)).bind fun ms =>
        if (ms.lookup l.1).isSome then none else some ((l.1, .integer l.2) :: ms) := by
      simp [entriesOf, closeEntries, closeEntry]
    have hkeys : (membersOf ls).map Prod.fst = ls.map Prod.fst := by simp [membersOf]
    have hlookup : ((membersOf ls).lookup l.1).isSome ↔ l.1 ∈ ls.map Prod.fst := by
      rw [Option.isSome_iff_ne_none, ne_eq, lookup_eq_none_iff_notMem, hkeys, not_not]
    have hnodup : ((l :: ls).map Prod.fst).Nodup ↔
        l.1 ∉ ls.map Prod.fst ∧ (ls.map Prod.fst).Nodup := by
      rw [List.map_cons, List.nodup_cons]
    rw [hcons, ih]
    by_cases hls : (ls.map Prod.fst).Nodup
    · rw [if_pos hls, Option.bind_some]
      by_cases hl : l.1 ∈ ls.map Prod.fst
      · rw [if_pos (hlookup.mpr hl), if_neg fun h => (hnodup.mp h).1 hl]
      · rw [if_neg fun h => hl (hlookup.mp h), if_pos (hnodup.mpr ⟨hl, hls⟩)]
        rfl
    · rw [if_neg hls, if_neg fun h => hls (hnodup.mp h).2]
      rfl

theorem closeMembers_values (ms : Members) :
    closeMembers (ms.map fun m => (m.1, .value m.2)) = ms := by
  induction ms with
  | nil => rw [List.map_nil, closeMembers]
  | cons m ms ih => rw [List.map_cons, closeMembers, Node.close, ih]

/-- **A document of integers is read as it is written,** unless 64 bits do not hold one of them or a
name is repeated. -/
theorem read_linesText (hls : ∀ l ∈ ls, IsWord l.1.toList) :
    read (linesText ls) =
      if (∀ l ∈ ls, -2 ^ 63 ≤ l.2 ∧ l.2 < 2 ^ 63) ∧ (ls.map Prod.fst).Nodup then
        some (membersOf ls)
      else none := by
  have hlength : ls.length < (ls.flatMap lineTokens).length + 1 := by
    simp [List.length_flatMap, lineTokens]
    omega
  have hclosed := closeMembers_values (membersOf ls)
  simp only [read, lex_linesText hls, Option.bind_eq_bind, Option.bind_some,
    readSections_lines hlength]
  by_cases hrange : ∀ l ∈ ls, -2 ^ 63 ≤ l.2 ∧ l.2 < 2 ^ 63
  · by_cases hnodup : (ls.map Prod.fst).Nodup
    · rw [if_pos hrange, if_pos ⟨hrange, hnodup⟩]
      simp [assemble, closeEntries_entriesOf, hnodup, mergeMembers, hclosed]
    · rw [if_pos hrange, if_neg fun h => hnodup h.2]
      simp [assemble, closeEntries_entriesOf, hnodup]
  · rw [if_neg hrange, if_neg fun h => hrange h.1]
    rfl

end MarketFeed.Toml
