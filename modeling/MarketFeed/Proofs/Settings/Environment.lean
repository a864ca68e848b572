import MarketFeed.Proofs.Settings.Layering
import MarketFeed.Proofs.Settings.Texts
import MarketFeed.Proofs.Toml.Keys

/-!
# What variables set

A file of variables makes assignments, and only those for names that have no value yet take effect.
So the environment after the file goes before the file. Of the variables only those count whose
names, in lower case and without their prefix, lead to a setting.

## Main definitions

* `Variables.assigned`: the assignments that the lines of a file make
* `Variables.textFor?`: the text of the variable that leads to a setting
* `Variables.Sets vs c`: variables set a choice

## Main results

* `Variables.textFor?_withFile`: the environment goes before the file
* `Variables.Sets.withFile`: a file of variables sets what the environment leaves open
* `Variables.Sets.says_ofVariables`: the layer of variables says what they set
-/

namespace MarketFeed

open Text

/-! ## Files of variables -/

namespace Variables

variable {vs : Variables} {told as : List (String × String)} {ls : List (Option (List Char))}
  {text name : String}

/-- the variables after an assignment, which never overrides one -/
def addUnset (vs : Variables) (a : String × String) : Variables :=
  if (vs.lookup a.1).isSome then vs else vs ++ [a]

/-- The assignments that the lines of a file make, up to its first bad line. -/
def assignedBy (vs : Variables) (told : List (String × String)) :
    List (Option (List Char)) → List (String × String)
  | [] | none :: _ => []
  | some line :: ls =>
    match readAssignment (fun name => ((vs.lookup name).or (told.lookup name)).getD "") line with
    | none => []
    | some none => assignedBy vs told ls
    | some (some a) => a :: assignedBy (vs.addUnset a) (a :: told) ls

/-- the assignments that a file makes -/
def assigned (vs : Variables) (text : String) : List (String × String) :=
  let cs := match text.toList with
    | '\ufeff' :: cs => cs
    | cs => cs
  vs.assignedBy [] (logicalLines [] .complete (linesOf cs))

theorem withLines_eq (vs : Variables) (told : List (String × String))
    (ls : List (Option (List Char))) :
    vs.withLines told ls = (vs.assignedBy told ls).foldl addUnset vs := by
  induction ls generalizing vs told with
  | nil => rfl
  | cons l ls ih =>
    cases l with
    | none => rfl
    | some line =>
      rw [withLines, assignedBy]
      cases readAssignment (fun name => ((vs.lookup name).or (told.lookup name)).getD "") line with
      | none => rfl
      | some a =>
        cases a with
        | none => exact ih vs told
        | some a => exact ih (vs.addUnset a) (a :: told)

theorem withFile_eq (vs : Variables) (text : String) :
    vs.withFile text = (vs.assigned text).foldl addUnset vs := withLines_eq ..

theorem withFile_empty (vs : Variables) : vs.withFile "" = vs := by
  rw [withFile, String.toList_empty]
  rfl

/-- the text of the first variable that leads to a setting -/
def textFor? (vs : Variables) (name : String) : Option String :=
  (vs.find? fun v => Layer.settingOf? v.1 = some name).map Prod.snd

theorem textFor?_append (vs ws : Variables) (name : String) :
    textFor? (vs ++ ws) name = (vs.textFor? name).or (ws.textFor? name) := by
  rw [textFor?, List.find?_append, Option.map_or]
  rfl

theorem textFor?_addUnset (vs : Variables) (a : String × String) (name : String) :
    (vs.addUnset a).textFor? name = (vs.textFor? name).or (textFor? [a] name) := by
  rw [addUnset]
  split
  · rename_i hset
    by_cases ha : Layer.settingOf? a.1 = some name
    · obtain ⟨t, ht⟩ := Option.isSome_iff_exists.mp hset
      obtain ⟨before, after, rfl, -⟩ := List.lookup_eq_some_iff.mp ht
      have hsome : (textFor? (before ++ (a.1, t) :: after) name).isSome := by
        simp [textFor?, ha]
      rw [Option.or_of_isSome hsome]
    · have hnone : textFor? [a] name = none := by simp [textFor?, ha]
      rw [hnone, Option.or_none]
  · exact textFor?_append vs [a] name

theorem textFor?_foldl_addUnset (vs as : Variables) (name : String) :
    (as.foldl addUnset vs).textFor? name = (vs.textFor? name).or (as.textFor? name) := by
  induction as generalizing vs with
  | nil => exact (Option.or_none ..).symm
  | cons a as ih =>
    rw [List.foldl_cons, ih, textFor?_addUnset, Option.or_assoc, ← textFor?_append,
      List.singleton_append]

/-- **The environment goes before a file of variables,** and in the file the first line that leads
to a setting goes before the others. -/
theorem textFor?_withFile (vs : Variables) (text name : String) :
    (vs.withFile text).textFor? name =
      (vs.textFor? name).or (textFor? (vs.assigned text) name) := by
  rw [withFile_eq, textFor?_foldl_addUnset]

theorem mem_of_mem_foldl_addUnset {v : String × String} (h : v ∈ as.foldl addUnset vs) :
    v ∈ vs ∨ v ∈ as := by
  induction as generalizing vs with
  | nil => exact .inl h
  | cons a as ih =>
    rcases ih h with hvs | has
    · rw [addUnset] at hvs
      split at hvs
      · exact .inl hvs
      · rcases List.mem_append.mp hvs with hvs | ha
        · exact .inl hvs
        · exact .inr (List.mem_cons.mpr (.inl (List.mem_singleton.mp ha)))
    · exact .inr (List.mem_cons_of_mem a has)

theorem nodup_foldl_addUnset (h : (vs.map Prod.fst).Nodup) :
    ((as.foldl addUnset vs).map Prod.fst).Nodup := by
  induction as generalizing vs with
  | nil => exact h
  | cons a as ih =>
    refine ih ?_
    rw [addUnset]
    split
    · exact h
    · rename_i hnone
      rw [Option.not_isSome_iff_eq_none] at hnone
      exact nodup_append_of_lookup_eq_none h hnone a.2

theorem nodup_withFile (h : (vs.map Prod.fst).Nodup) (text : String) :
    ((vs.withFile text).map Prod.fst).Nodup := by
  rw [withFile_eq]
  exact nodup_foldl_addUnset h

end Variables

/-! ## The layer of variables -/

namespace Variables

variable {vs : Variables} {name : String}

/-- No variable leads to a place inside a setting, and those that lead to the setting have one
name. -/
structure Lead (vs : Variables) (name : String) : Prop where
  outside : ∀ v ∈ vs, ∀ key ∈ Layer.settingOf? v.1, (KeyPath.ofText key).name = name → key = name
  same : ∀ v ∈ vs, ∀ w ∈ vs, Layer.settingOf? v.1 = some name →
    Layer.settingOf? w.1 = some name → v.1 = w.1

theorem values_ofVariables (hnodup : (vs.map Prod.fst).Nodup) (hlead : vs.Lead name) :
    ((Layer.ofVariables vs).entries.filter (·.1 = name)).map Prod.snd =
      ((vs.textFor? name).map SettingValue.ofText).toList := by
  have hkept : ((Layer.ofVariables vs).entries.filter (·.1 = name)).map Prod.snd =
      ((vs.filter fun v => Layer.settingOf? v.1 = some name).map Prod.snd).map
        SettingValue.ofText := by
    clear hnodup hlead
    induction vs with
    | nil => rfl
    | cons v vs ih =>
      cases hkey : Layer.settingOf? v.1 with
      | none => simpa [Layer.ofVariables, hkey] using ih
      | some key =>
        by_cases hsame : key = name
        · simpa [Layer.ofVariables, hkey, hsame] using ih
        · simpa [Layer.ofVariables, hkey, hsame] using ih
  rw [hkept, textFor?]
  cases hfind : vs.find? fun v => Layer.settingOf? v.1 = some name with
  | none =>
    have hnil : (vs.filter fun v => Layer.settingOf? v.1 = some name) = [] :=
      List.filter_eq_nil_iff.mpr (List.find?_eq_none.mp hfind)
    rw [hnil]
    rfl
  | some v =>
    have hv : Layer.settingOf? v.1 = some name := by simpa using List.find?_some hfind
    have hmem : v ∈ vs := List.mem_of_find?_eq_some hfind
    have hfilter : (vs.filter fun w => Layer.settingOf? w.1 = some name) =
        vs.filter (·.1 = v.1) := by
      refine List.filter_congr fun w hw => decide_eq_decide.mpr ⟨fun h => ?_, fun h => ?_⟩
      · exact hlead.same w hw v hmem h hv
      · rw [h, hv]
    rw [hfilter, values_of_nodup hnodup, lookup_of_mem hnodup hmem]
    rfl

/-- **The layer of variables has the text of a setting on it,** and nothing else. -/
theorem says_ofVariables (hnodup : (vs.map Prod.fst).Nodup) (hlead : vs.Lead name) :
    (Layer.ofVariables vs).Says name ((vs.textFor? name).map SettingValue.ofText) := by
  refine ⟨values_ofVariables hnodup hlead, fun e he hpath => ?_, fun b hb => ?_⟩
  · obtain ⟨v, hv, hentry⟩ := List.mem_filterMap.mp he
    obtain ⟨key, hkey, hpair⟩ := Option.bind_eq_some_iff.mp hentry
    obtain rfl := Option.some.inj hpair
    exact hlead.outside v hv key hkey hpath
  · obtain ⟨t, -, ht⟩ := Option.map_eq_some_iff.mp hb
    exact SettingValue.ofText_ne_table t b ht

end Variables

/-! ## Choices of variables -/

/-- Variables set a choice, with integers that 64 bits hold with their sign and with texts that are
plain. What else they set leads to no setting. -/
structure Variables.Sets (vs : Variables) (c : Choice) : Prop where
  pairs : vs.textFor? pairsName = c.pairs
  text : ∀ k, vs.textFor? k.name = c.text k
  number : ∀ k, Option.Rel (fun t (n : ℕ) => WritesInteger t n) (vs.textFor? k.name) (c.number k)
  signed : c.Signed
  plain_pairs : ∀ t ∈ c.pairs, IsPlainText t
  plain_text : ∀ k, ∀ t ∈ c.text k, IsPlainText t
  foreign : ∀ v ∈ vs, ∀ key ∈ Layer.settingOf? v.1, key ∈ settingNames ∨ IsForeign key

/-- No setting is set under names that differ. -/
def Variables.Spelled (vs : Variables) : Prop :=
  ∀ v ∈ vs, ∀ w ∈ vs, ∀ name ∈ Layer.settingOf? v.1, name ∈ settingNames →
    Layer.settingOf? w.1 = some name → v.1 = w.1

instance (vs : Variables) : Decidable vs.Spelled :=
  inferInstanceAs (Decidable (∀ v ∈ vs, ∀ w ∈ vs, _))

namespace Variables.Sets

variable {vs : Variables} {c d : Choice} {text name : String}

theorem lead (h : vs.Sets c) (hspelled : vs.Spelled) (hname : name ∈ settingNames) :
    vs.Lead name := by
  refine ⟨fun v hv key hkey hpath => ?_, fun v hv w hw hvkey => hspelled v hv w hw name hvkey hname⟩
  rcases h.foreign v hv key hkey with hmem | hforeign
  · rwa [KeyPath.ofText_of_mem key hmem] at hpath
  · exact absurd (hpath ▸ hname) hforeign.1

theorem rel_or {α β : Type} {r : α → β → Prop} {a a' : Option α} {b b' : Option β}
    (h : Option.Rel r a b) (h' : Option.Rel r a' b') : Option.Rel r (a.or a') (b.or b') := by
  cases h with
  | none => exact h'
  | some h => exact .some h

/-- **A file of variables sets what the environment leaves open.** -/
theorem withFile (h : vs.Sets c) (hfile : Variables.Sets (vs.assigned text) d) :
    (vs.withFile text).Sets (c.before d) where
  pairs := by rw [textFor?_withFile, h.pairs, hfile.pairs, Choice.before]
  text k := by rw [textFor?_withFile, h.text, hfile.text, Choice.before]
  number k := by
    rw [textFor?_withFile]
    exact rel_or (h.number k) (hfile.number k)
  signed := h.signed.before hfile.signed
  plain_pairs t ht := by
    rcases Option.or_eq_some_iff.mp ht with hfirst | ⟨-, hsecond⟩
    · exact h.plain_pairs t hfirst
    · exact hfile.plain_pairs t hsecond
  plain_text k t ht := by
    rcases Option.or_eq_some_iff.mp ht with hfirst | ⟨-, hsecond⟩
    · exact h.plain_text k t hfirst
    · exact hfile.plain_text k t hsecond
  foreign v hv := by
    rw [withFile_eq] at hv
    rcases mem_of_mem_foldl_addUnset hv with hvs | hassigned
    · exact h.foreign v hvs
    · exact hfile.foreign v hassigned

/-- **The layer of variables says what they set.** -/
theorem says_ofVariables (h : vs.Sets c) (hnodup : (vs.map Prod.fst).Nodup)
    (hspelled : vs.Spelled) (k : SettingKey) : (Layer.ofVariables vs).Says k.name (c.value k) := by
  have hsays := Variables.says_ofVariables hnodup (h.lead hspelled k.name_mem)
  have hvalue : (vs.textFor? k.name).map SettingValue.ofText = c.value k := by
    cases k with
    | pairs =>
      change (vs.textFor? pairsName).map _ = c.pairs.map _
      rw [h.pairs]
      exact Option.map_congr fun t ht => SettingValue.ofText_of_isPlainText (h.plain_pairs t ht)
    | text k =>
      change (vs.textFor? k.name).map _ = (c.text k).map _
      rw [h.text]
      exact Option.map_congr fun t ht => SettingValue.ofText_of_isPlainText (h.plain_text k t ht)
    | number k =>
      change (vs.textFor? k.name).map _ = (c.number k).map _
      have hwrites := h.number k
      have hsigned := h.signed k
      revert hwrites hsigned
      generalize vs.textFor? k.name = t, c.number k = n
      intro hwrites hsigned
      cases hwrites with
      | none => rfl
      | @some t n hwrites =>
        exact congrArg some (SettingValue.ofText_of_writesInteger_nat hwrites (hsigned n rfl))
  rwa [hvalue] at hsays

end Variables.Sets

theorem Variables.Spelled.withFile {vs : Variables} {text : String}
    (h : Variables.Spelled (vs ++ vs.assigned text)) : (vs.withFile text).Spelled := by
  have hmem {v} (hv : v ∈ vs.withFile text) : v ∈ vs ++ vs.assigned text := by
    rw [withFile_eq] at hv
    exact List.mem_append.mpr (mem_of_mem_foldl_addUnset hv)
  exact fun v hv w hw => h v (hmem hv) w (hmem hw)

end MarketFeed
