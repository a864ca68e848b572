import Mathlib.Data.List.DropRight
import MarketFeed.Proofs.Text.UpperCase
import MarketFeed.Settings.Pairs

/-!
# Lists of products and their entries

A text that lists products is split at its commas, and every piece that is not blank gives an entry:
its upper-case form, without the white space at its ends. Taking white space off and going over to
upper case leave an entry as it is, and neither brings a comma into it. So the entries, joined by
commas, are split where they were joined and are read as themselves.

## Main definitions

* `Trimmed cs`: no white space at the ends of a text
* `IsEntry id`: the form that every entry has
* `Listed text`: what a text lists, said of its pieces

## Main results

* `trim_of_trimmed`, `trimmed_trim`: just what has no white space at its ends stays as it is
* `readPairs_intercalate`: entries joined by commas are read as themselves
* `listed_readPairs`: every text lists its pieces that are not blank, once and for all
-/

namespace MarketFeed

open Text

variable {cs : List Char} {ids : List String}

/-! ## White space at the ends -/

/-- A text has no white space at its ends. -/
structure Trimmed (cs : List Char) : Prop where
  head : ∀ c ∈ cs.head?, isBlank c = false
  last : ∀ c ∈ cs.getLast?, isBlank c = false

theorem trim_eq_rdropWhile (cs : List Char) :
    trim cs = (cs.dropWhile isBlank).rdropWhile isBlank := rfl

theorem head?_dropWhile_isBlank (cs : List Char) :
    ∀ c ∈ (cs.dropWhile isBlank).head?, isBlank c = false := by
  intro c hc
  have hnot := List.head?_dropWhile_not isBlank cs
  rwa [Option.mem_def.mp hc] at hnot

theorem trimmed_trim (cs : List Char) : Trimmed (trim cs) := by
  rw [trim_eq_rdropWhile]
  refine ⟨fun c hc => ?_, fun c hc => ?_⟩
  · obtain ⟨rest, hrest⟩ := List.rdropWhile_prefix isBlank (cs.dropWhile isBlank)
    refine head?_dropWhile_isBlank cs c ?_
    rw [← hrest, List.head?_append, Option.mem_def.mp hc, Option.some_or]
    rfl
  · have hne : (cs.dropWhile isBlank).rdropWhile isBlank ≠ [] := by
      rintro hnil
      rw [hnil] at hc
      cases hc
    rw [List.getLast?_eq_some_getLast hne] at hc
    obtain rfl := Option.some.inj hc
    exact Bool.eq_false_iff.mpr (List.rdropWhile_last_not isBlank _ hne)

theorem trim_of_trimmed (h : Trimmed cs) : trim cs = cs := by
  have hstart : cs.dropWhile isBlank = cs := by
    cases cs with
    | nil => rfl
    | cons c cs => rw [List.dropWhile_cons, h.head c rfl, if_neg Bool.false_ne_true]
  rw [trim_eq_rdropWhile, hstart, List.rdropWhile_eq_self_iff]
  intro hne
  rw [h.last _ (List.getLast?_eq_some_getLast hne)]
  exact Bool.false_ne_true

/-- Nothing is left of white space alone. -/
theorem trim_eq_nil_iff : trim cs = [] ↔ ∀ c ∈ cs, isBlank c := by
  rw [trim_eq_rdropWhile, List.rdropWhile_eq_nil_iff]
  constructor
  · intro hrest c hc
    by_contra hblank
    have hne : cs.dropWhile isBlank ≠ [] := fun hnil =>
      hblank (List.dropWhile_eq_nil_iff.mp hnil c hc)
    have hhead := head?_dropWhile_isBlank cs _ (List.head?_eq_some_head hne)
    rw [hrest _ (List.head_mem hne)] at hhead
    cases hhead
  · intro hblank
    rw [List.dropWhile_eq_nil_iff.mpr hblank]
    exact nofun

/-! ## Pieces -/

theorem splitPieces_eq_splitOn (cs : List Char) : splitPieces cs = cs.splitOn ',' := by
  induction cs with
  | nil => rfl
  | cons c cs ih =>
    rw [splitPieces, ih, List.splitOn_cons_eq_if_modifyHead]
    by_cases hc : c = ','
    · simp [hc]
    · simp only [if_neg hc, beq_iff_eq]
      cases hpieces : cs.splitOn ',' with
      | nil => exact absurd hpieces (List.splitOn_ne_nil _ _)
      | cons p ps => rfl

theorem comma_not_mem_of_mem_splitOn : ∀ p ∈ cs.splitOn ',', ',' ∉ p := by
  induction cs with
  | nil => simp
  | cons c cs ih =>
    rw [List.splitOn_cons_eq_if_modifyHead]
    by_cases hc : c = ','
    · simpa [hc] using ih
    · simp only [beq_iff_eq, hc, if_false]
      cases hpieces : cs.splitOn ',' with
      | nil => exact absurd hpieces (List.splitOn_ne_nil _ _)
      | cons p ps =>
        rw [hpieces, List.forall_mem_cons] at ih
        rw [List.modifyHead_cons, List.forall_mem_cons]
        exact ⟨fun hcomma => (List.mem_cons.mp hcomma).elim (Ne.symm hc) ih.1, ih.2⟩

/-! ## Entries -/

/-- What an entry of a list of products is like. -/
structure IsEntry (id : String) : Prop where
  ne_empty : id ≠ ""
  no_comma : ',' ∉ id.toList
  trimmed : Trimmed id.toList

/-- the entry that a piece gives -/
def entryOf (p : List Char) : String := String.ofList (upperCaseText (trim p))

/-- A piece is blank. -/
def IsBlankPiece (p : List Char) : Prop := ∀ c ∈ p, isBlank c

instance (p : List Char) : Decidable (IsBlankPiece p) := decidable_of_iff _ List.all_eq_true

theorem upperCaseText_trim_eq_nil_iff : upperCaseText (trim cs) = [] ↔ IsBlankPiece cs :=
  upperCaseText_eq_nil_iff.trans trim_eq_nil_iff

theorem toList_entryOf (cs : List Char) : (entryOf cs).toList = upperCaseText (trim cs) :=
  String.toList_ofList

theorem isEntry_entryOf (hblank : ¬ IsBlankPiece cs) (hcomma : ',' ∉ cs) :
    IsEntry (entryOf cs) := by
  have hsub : ∀ c ∈ trim cs, c ∈ cs := fun c hc =>
    (List.dropWhile_sublist isBlank).subset ((List.rdropWhile_prefix isBlank _).subset hc)
  have htrimmed := trimmed_trim cs
  refine ⟨fun hempty => hblank (upperCaseText_trim_eq_nil_iff.mp ?_), ?_, ?_, ?_⟩
  · rw [← toList_entryOf, hempty, String.toList_empty]
  · rw [toList_entryOf]
    exact comma_not_mem_upperCaseText fun hmem => hcomma (hsub _ hmem)
  · rw [toList_entryOf]
    exact head?_upperCaseText htrimmed.head
  · rw [toList_entryOf]
    exact getLast?_upperCaseText htrimmed.last

/-- An entry gives itself. -/
theorem entryOf_toList_entryOf (hblank : ¬ IsBlankPiece cs) (hcomma : ',' ∉ cs) :
    entryOf (entryOf cs).toList = entryOf cs := by
  rw [entryOf, trim_of_trimmed (isEntry_entryOf hblank hcomma).trimmed, toList_entryOf,
    upperCaseText_upperCaseText, entryOf]

theorem IsEntry.not_isBlankPiece {id : String} (h : IsEntry id) : ¬ IsBlankPiece id.toList := by
  intro hblank
  have hnil := trim_eq_nil_iff.mpr hblank
  rw [trim_of_trimmed h.trimmed] at hnil
  exact h.ne_empty (String.toList_eq_nil_iff.mp hnil)

/-! ## Lists -/

theorem readPairs_eq (text : String) :
    readPairs text =
      match (text.toList.splitOn ',').filter fun p => ¬ IsBlankPiece p with
      | [] => none
      | ps => some (ps.map entryOf) := by
  rw [readPairs, splitPieces_eq_splitOn, List.filter_map]
  have hsame : ((fun cs : List Char => decide (cs ≠ [])) ∘ fun p => upperCaseText (trim p)) =
      fun p => decide (¬ IsBlankPiece p) := by
    funext p
    simp [upperCaseText_trim_eq_nil_iff]
  rw [hsame]
  cases (text.toList.splitOn ',').filter fun p => ¬ IsBlankPiece p with
  | nil => rfl
  | cons p ps =>
    simp only [List.map_cons, List.map_map]
    rfl

/-- **Entries joined by commas are read as themselves.** -/
theorem readPairs_intercalate (hne : ids ≠ []) (hentry : ∀ id ∈ ids, IsEntry id)
    (hsame : ∀ id ∈ ids, entryOf id.toList = id) :
    readPairs (",".intercalate ids) = some ids := by
  have hpieces : (",".intercalate ids).toList.splitOn ',' = ids.map String.toList := by
    rw [String.toList_intercalate]
    refine List.splitOn_intercalate _ (fun l hl => ?_) (by simpa using hne)
    obtain ⟨id, hid, rfl⟩ := List.mem_map.mp hl
    exact (hentry id hid).no_comma
  have hkept : (ids.map String.toList).filter (fun p => ¬ IsBlankPiece p) =
      ids.map String.toList := by
    refine List.filter_eq_self.mpr fun l hl => ?_
    obtain ⟨id, hid, rfl⟩ := List.mem_map.mp hl
    exact decide_eq_true (hentry id hid).not_isBlankPiece
  have hentries : (ids.map String.toList).map entryOf = ids := by
    rw [List.map_map]
    exact (List.map_congr_left hsame).trans (List.map_id _)
  rw [readPairs_eq, hpieces, hkept]
  cases ids with
  | nil => exact absurd rfl hne
  | cons id ids => exact congrArg some hentries

/-- What a text lists: nothing if all its pieces are blank, and else an entry for each piece that is
not, in their order. Joined by commas, the entries list themselves. -/
inductive Listed (text : String) : Option (List String) → Prop
  | nothing (blank : ∀ p ∈ text.toList.splitOn ',', IsBlankPiece p) : Listed text none
  | entries (ids : List String) (some_piece : ∃ p ∈ text.toList.splitOn ',', ¬ IsBlankPiece p)
      (eq_map : ids = ((text.toList.splitOn ',').filter fun p => ¬ IsBlankPiece p).map entryOf)
      (isEntry : ∀ id ∈ ids, IsEntry id)
      (again : readPairs (",".intercalate ids) = some ids) : Listed text (some ids)

/-- **A text lists its pieces that are not blank, once and for all.** -/
theorem listed_readPairs (text : String) : Listed text (readPairs text) := by
  have hpiece {p} (hp : p ∈ (text.toList.splitOn ',').filter fun p => ¬ IsBlankPiece p) :
      p ∈ text.toList.splitOn ',' ∧ ¬ IsBlankPiece p := by
    simpa using List.mem_filter.mp hp
  rw [readPairs_eq]
  cases hkept : (text.toList.splitOn ',').filter fun p => ¬ IsBlankPiece p with
  | nil =>
    refine .nothing fun p hp => ?_
    simpa using List.filter_eq_nil_iff.mp hkept p hp
  | cons p ps =>
    have hentry : ∀ id ∈ (p :: ps).map entryOf, IsEntry id ∧ entryOf id.toList = id := by
      intro id hid
      obtain ⟨q, hq, rfl⟩ := List.mem_map.mp hid
      obtain ⟨hmem, hblank⟩ := hpiece (hkept ▸ hq)
      have hcomma := comma_not_mem_of_mem_splitOn q hmem
      exact ⟨isEntry_entryOf hblank hcomma, entryOf_toList_entryOf hblank hcomma⟩
    refine .entries _ ⟨p, hpiece (hkept ▸ List.mem_cons_self)⟩ (by rw [hkept])
      (fun id hid => (hentry id hid).1) ?_
    exact readPairs_intercalate (List.cons_ne_nil _ _) (fun id hid => (hentry id hid).1)
      fun id hid => (hentry id hid).2

/-- Blank pieces do not count, and an upper-case form may be longer. -/
example : readPairs " btc-usd,, straße\t" = some ["BTC-USD", "STRASSE"] := by decide +kernel

end MarketFeed
