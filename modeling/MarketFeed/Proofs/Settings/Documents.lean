import MarketFeed.Proofs.Json.Values
import MarketFeed.Proofs.Settings.Overriding
import MarketFeed.Proofs.Toml.Lines

/-!
# Documents of integers

A document that gives integers to words, as TOML or as JSON, is a file that gives them to the
settings of these names. TOML takes no integer that 64 bits do not hold with its sign, and no name
twice. In JSON the last integer of a name counts.

## Main definitions

* `Layer.Gives l name n`: a file gives an integer to a setting
* `Json.ofIntegers`: the JSON object of some names and integers

## Main results

* `Files.layer_linesText`: a TOML file with an integer beyond 64 bits is malformed
* `Files.gives_of_linesText`: a TOML document gives its integers
* `Files.gives_of_ofIntegers`: a JSON document gives the last integers of its names
-/

namespace MarketFeed

/-- A file gives an integer to a setting, and no key leads to a place inside the setting. -/
structure Layer.Gives (l : Layer) (name : String) (n : ℤ) : Prop where
  value : l.entries.lookup name = some (.ofInteger n)
  outside : ∀ e ∈ l.entries, (KeyPath.ofText e.1).name = name → e.1 = name

variable {files : Files} {path name : String} {l : Layer} {ls : List (String × ℤ)} {k : NumberKey}
  {n : ℤ}

/-! ## Words -/

theorem KeyPath.isNameChar_of_isWordChar {c : Char} (hc : Toml.isWordChar c) : isNameChar c := by
  have hupper : c.isUpper = decide ('A' ≤ c ∧ c ≤ 'Z') := rfl
  have hlower : c.isLower = (decide ('a' ≤ c) && decide (c ≤ 'z')) := rfl
  have hdigit : c.isDigit = (decide ('0' ≤ c) && decide (c ≤ '9')) := rfl
  have halnum : c.isAlphanum = (c.isUpper || c.isLower || c.isDigit) := rfl
  simp only [Toml.isWordChar, Bool.or_eq_true, Bool.and_eq_true, decide_eq_true_eq] at hc
  simp only [isNameChar, halnum, hupper, hlower, hdigit, Bool.or_eq_true, Bool.and_eq_true,
    decide_eq_true_eq]
  tauto

/-- A word leads to itself. -/
theorem KeyPath.ofText_of_isWord {key : String} (h : Toml.IsWord key.toList) :
    ofText key = ⟨key, none⟩ := by
  have hname : takeName key.toList = some (key.toList, []) := by
    have hchars : ∀ c ∈ key.toList, isNameChar c := fun c hc =>
      isNameChar_of_isWordChar (h.chars c hc)
    rw [takeName, List.span_eq_takeWhile_dropWhile, List.takeWhile_eq_self_iff.mpr hchars,
      List.dropWhile_eq_nil_iff.mpr hchars]
    split
    · rename_i hnil
      exact absurd (congrArg Prod.fst hnil) h.ne_nil
    · rfl
  simp [ofText, hname, steps]

theorem Layer.gives_of_words (hkeys : ∀ e ∈ l.entries, Toml.IsWord e.1.toList)
    (hvalue : l.entries.lookup name = some (.ofInteger n)) : l.Gives name n := by
  refine ⟨hvalue, fun e he hpath => ?_⟩
  rwa [KeyPath.ofText_of_isWord (hkeys e he)] at hpath

/-! ## TOML -/

/-- **A TOML file with an integer beyond 64 bits is malformed,** and so is one that repeats a
name. -/
theorem Files.layer_linesText
    (hlocate : files.locate path = .ok (name, Toml.linesText ls, .toml))
    (hls : ∀ l ∈ ls, Toml.IsWord l.1.toList) :
    files.layer path =
      if (∀ l ∈ ls, -2 ^ 63 ≤ l.2 ∧ l.2 < 2 ^ 63) ∧ (ls.map Prod.fst).Nodup then
        .ok ⟨name, ls.map fun l => (l.1, .integer l.2)⟩
      else .error (.malformed name) := by
  have htable := Toml.read_linesText hls
  by_cases hread : (∀ l ∈ ls, -2 ^ 63 ≤ l.2 ∧ l.2 < 2 ^ 63) ∧ (ls.map Prod.fst).Nodup
  · rw [if_pos hread] at htable ⊢
    simp only [layer, hlocate, bind, Except.bind, Format.read, Layer.ofToml, htable,
      Option.map_some, Toml.membersOf, List.map_map]
    rfl
  · rw [if_neg hread] at htable ⊢
    simp only [layer, hlocate, bind, Except.bind, Format.read, Layer.ofToml, htable,
      Option.map_none]

/-- The integers of a TOML file are those that 64 bits hold. -/
theorem Files.gives_of_linesText
    (hlocate : files.locate path = .ok (name, Toml.linesText ls, .toml))
    (hls : ∀ l ∈ ls, Toml.IsWord l.1.toList) (hmem : (k.name, n) ∈ ls)
    (hlayer : files.layer path = .ok l) : (-2 ^ 63 ≤ n ∧ n < 2 ^ 63) ∧ l.Gives k.name n := by
  have hnodup := nodup_layer hlayer
  rw [layer_linesText hlocate hls] at hlayer
  split at hlayer
  · rename_i hread
    obtain rfl := Except.ok.inj hlayer
    have hrange := hread.1 _ hmem
    refine ⟨hrange, Layer.gives_of_words (fun e he => ?_) (lookup_of_mem hnodup ?_)⟩
    · obtain ⟨l, hl, rfl⟩ := List.mem_map.mp he
      exact hls l hl
    · rw [SettingValue.ofInteger, if_pos hrange]
      exact List.mem_map.mpr ⟨_, hmem, rfl⟩
  · cases hlayer

/-! ## JSON -/

/-- the JSON object of some names and integers -/
def Json.ofIntegers (ls : List (String × ℤ)) : Json := .object (ls.map fun l => (l.1, .integer l.2))

theorem Json.exact_ofIntegers (h : ∀ l ∈ ls, IntegerFits l.2) : (ofIntegers ls).Exact := by
  rw [ofIntegers, Exact]
  induction ls with
  | nil => exact trivial
  | cons l ls ih =>
    rw [List.forall_mem_cons] at h
    exact ⟨h.1, ih h.2⟩

theorem Json.nesting_ofIntegers (ls : List (String × ℤ)) : (ofIntegers ls).nesting = 1 := by
  rw [ofIntegers, nesting, Nat.add_eq_right]
  induction ls with
  | nil => rfl
  | cons l ls ih => rw [List.map_cons, nestingMembers, ih, nesting, max_self]

/-- Of the integers that a JSON file has for a setting the last one counts. -/
theorem Files.gives_of_ofIntegers
    (hlocate : files.locate path = .ok (name, (Json.ofIntegers ls).text, .json))
    (hls : ∀ l ∈ ls, Toml.IsWord l.1.toList ∧ Json.IntegerFits l.2)
    (hlookup : Json.lookup? k.name ls = some n) (hlayer : files.layer path = .ok l) :
    l.Gives k.name n := by
  have hnodup := nodup_layer hlayer
  have hread : Json.readText (Json.ofIntegers ls).text = .ok (Json.ofIntegers ls) := by
    refine Json.readText_text (Json.exact_ofIntegers fun l hl => (hls l hl).2) ?_
    rw [Json.nesting_ofIntegers]
    decide
  simp only [layer, hlocate, bind, Except.bind, Format.read, Layer.ofJson, hread] at hlayer
  obtain rfl := Except.ok.inj hlayer
  have hordered := Json.ordered_settled (ls.map fun l => (l.1, Json.integer l.2))
  have hfound : (k.name, Json.integer n) ∈ Json.settled (ls.map fun l => (l.1, .integer l.2)) := by
    rw [← hordered.lookup?_eq_some_iff, Json.lookup?_settled, Json.lookup?_map, hlookup]
    rfl
  refine Layer.gives_of_words (fun e he => ?_) (lookup_of_mem hnodup ?_)
  · obtain ⟨m, hm, rfl⟩ := List.mem_map.mp he
    obtain ⟨l, hl, rfl⟩ := List.mem_map.mp (Json.mem_of_mem_settled hm)
    exact (hls l hl).1
  · obtain ⟨l, hl, hpair⟩ := List.mem_map.mp (Json.mem_of_mem_settled hfound)
    have hn : n = l.2 := (Json.integer.inj (congrArg Prod.snd hpair)).symm
    rw [← SettingValue.ofJson_integer (hn ▸ (hls l hl).2.1)]
    exact List.mem_map.mpr ⟨_, hfound, rfl⟩

end MarketFeed
