import Mathlib.Data.Int.Notation
import Mathlib.Data.Nat.Notation
import MarketFeed.Settings.Basic

/-!
# What layers make of settings

What a source sets is a choice: a value for some of the settings. A layer says a choice if it has
the values of the choice and nothing else that leads to a setting. Laid on others, such a layer
takes over exactly the settings it has values for, so that layers show what the choices come to
when each goes before those below it.

## Main definitions

* `SettingKey`: what can be set
* `IsForeign key`: a key leads to no setting
* `Choice`, `Choice.before`: what a source sets, and what two sources set of which one goes before
* `Choice.settings`: the settings that a choice and the standard give
* `Choice.Fits c`, `Choice.wrapped c`: there is room for all numbers, and what there is room for
* `Layer.Says l name v`: all that a layer has on a setting is a value, or nothing
* `Layered.Shows t c`: layers that lie on each other show a choice

## Main results

* `Layered.find?_layOn`: a layer takes over a setting it has a value for, and no other
* `Layered.shows_layOn`: layers show what the choices come to
* `Settings.ofLayered_eq_ok_iff`: settings are read one by one
* `Settings.ofLayered_of_shows`: what layers show is what the settings are
-/

namespace MarketFeed

/-! ## Names -/

/-- What can be set. -/
inductive SettingKey
  | pairs
  | text (k : TextKey)
  | number (k : NumberKey)

/-- the name under which something is set -/
def SettingKey.name : SettingKey → String
  | .pairs => pairsName
  | .text k => k.name
  | .number k => k.name

theorem TextKey.mem_all (k : TextKey) : k ∈ all := by cases k <;> decide

theorem NumberKey.mem_all (k : NumberKey) : k ∈ all := by cases k <;> decide

instance {p : TextKey → Prop} [DecidablePred p] : Decidable (∀ k, p k) :=
  decidable_of_iff (∀ k ∈ TextKey.all, p k) ⟨fun h k => h k k.mem_all, fun h k _ => h k⟩

instance {p : NumberKey → Prop} [DecidablePred p] : Decidable (∀ k, p k) :=
  decidable_of_iff (∀ k ∈ NumberKey.all, p k) ⟨fun h k => h k k.mem_all, fun h k _ => h k⟩

instance {p : SettingKey → Prop} [DecidablePred p] : Decidable (∀ k, p k) :=
  decidable_of_iff (p .pairs ∧ (∀ k, p (.text k)) ∧ ∀ k, p (.number k))
    ⟨fun ⟨hp, ht, hn⟩ k => match k with
      | .pairs => hp
      | .text k => ht k
      | .number k => hn k,
    fun h => ⟨h _, fun _ => h _, fun _ => h _⟩⟩

theorem SettingKey.name_mem (k : SettingKey) : k.name ∈ settingNames := by
  cases k with
  | pairs => exact List.mem_cons_self
  | text k =>
    exact List.mem_cons_of_mem _ (List.mem_append_left _ (List.mem_map_of_mem k.mem_all))
  | number k =>
    exact List.mem_cons_of_mem _ (List.mem_append_right _ (List.mem_map_of_mem k.mem_all))

/-- The name of a setting leads to the setting itself. -/
theorem KeyPath.ofText_of_mem : ∀ name ∈ settingNames, KeyPath.ofText name = ⟨name, none⟩ := by
  decide +kernel

/-- A key leads to no setting. Positions in lists are left out: a key has no brackets, or is a name
as it stands. -/
def IsForeign (key : String) : Prop :=
  (KeyPath.ofText key).name ∉ settingNames ∧
    ('[' ∈ key.toList → KeyPath.ofText key = ⟨key, none⟩)

instance (key : String) : Decidable (IsForeign key) := inferInstanceAs (Decidable (_ ∧ _))

/-! ## Choices -/

/-- What a source sets. -/
structure Choice where
  pairs : Option String
  text : TextKey → Option String
  number : NumberKey → Option ℕ

namespace Choice

/-- Everything is set that holds where nothing is set. -/
def standard : Choice := ⟨none, fun k => some k.standard, fun k => some k.standard⟩

/-- What two sources set, of which the first goes before the other. -/
def before (c d : Choice) : Choice where
  pairs := c.pairs.or d.pairs
  text k := (c.text k).or (d.text k)
  number k := (c.number k).or (d.number k)

/-- the value of a setting, as layers hold it -/
def value (c : Choice) : SettingKey → Option SettingValue
  | .pairs => c.pairs.map .text
  | .text k => (c.text k).map .text
  | .number k => (c.number k).map fun n : ℕ => .integer (n : ℤ)

/-- Every number has room in its setting. -/
def Fits (c : Choice) : Prop := ∀ k, ∀ n ∈ c.number k, n < Nat.pow 2 k.bits

instance (c : Choice) : Decidable c.Fits :=
  inferInstanceAs (Decidable (∀ k, ∀ n ∈ c.number k, n < Nat.pow 2 k.bits))

/-- Every number is an integer that 64 bits hold with its sign. -/
def Signed (c : Choice) : Prop := ∀ k, ∀ n ∈ c.number k, n < Nat.pow 2 63

instance (c : Choice) : Decidable c.Signed :=
  inferInstanceAs (Decidable (∀ k, ∀ n ∈ c.number k, n < Nat.pow 2 63))

/-- what there is room for: the low bits of all numbers -/
def wrapped (c : Choice) : Choice :=
  { c with number k := (c.number k).map (· % Nat.pow 2 k.bits) }

/-- The settings that a choice gives, and the standard where nothing is chosen. -/
def settings (c : Choice) : Settings :=
  let text (k : TextKey) := (c.text k).getD k.standard
  let number (k : NumberKey) := (c.number k).getD k.standard
  { pairs := c.pairs.bind readPairs
    restEndpoint := text .restEndpoint
    wsEndpoint := text .wsEndpoint
    marketCacheTtlSecs := number .marketCacheTtlSecs
    tickerMaxAttempts := number .tickerMaxAttempts
    tickerRetryDelayMs := number .tickerRetryDelayMs
    snapshotPacingMs := number .snapshotPacingMs
    messageTimeoutSecs := number .messageTimeoutSecs
    pingTimeoutSecs := number .pingTimeoutSecs
    reconnectCooldownSecs := number .reconnectCooldownSecs
    refreshPacingMs := number .refreshPacingMs
    refreshFailureDelayMs := number .refreshFailureDelayMs
    refreshRetryDelayMs := number .refreshRetryDelayMs
    depthLevels := number .depthLevels
    healthPort := number .healthPort }

variable {c d : Choice}

theorem settings_text (c : Choice) (k : TextKey) :
    c.settings.text k = (c.text k).getD k.standard := by
  cases k <;> rfl

theorem settings_number (c : Choice) (k : NumberKey) :
    c.settings.number k = (c.number k).getD k.standard := by
  cases k <;> rfl

theorem value_before (c d : Choice) (k : SettingKey) :
    (c.before d).value k = (c.value k).or (d.value k) := by
  cases k <;> exact Option.map_or

theorem before_assoc (c d e : Choice) : (c.before d).before e = c.before (d.before e) := by
  simp only [before, Option.or_assoc]

theorem value_ne_table (c : Choice) (k : SettingKey) (b : Bool) : c.value k ≠ some (.table b) := by
  cases k <;> simp [value]

theorem Signed.before (hc : c.Signed) (hd : d.Signed) : (c.before d).Signed := by
  intro k n hn
  rcases Option.or_eq_some_iff.mp hn with hfirst | ⟨-, hsecond⟩
  · exact hc k n hfirst
  · exact hd k n hsecond

theorem fits_standard : standard.Fits := by decide

/-- Nothing is lost of numbers that have room. -/
theorem wrapped_of_fits (h : c.Fits) : c.wrapped = c := by
  have hnumber : (fun k => (c.number k).map (· % Nat.pow 2 k.bits)) = c.number := by
    funext k
    exact (Option.map_congr fun n hn => Nat.mod_eq_of_lt (h k n hn)).trans Option.map_id'
  rw [wrapped, hnumber]

theorem settings_wrapped_number (c : Choice) (k : NumberKey) :
    c.wrapped.settings.number k = (c.number k).getD k.standard % Nat.pow 2 k.bits := by
  rw [settings_number]
  change ((c.number k).map _).getD _ = _
  cases c.number k with
  | none => exact (Nat.mod_eq_of_lt (fits_standard k _ rfl)).symm
  | some n => rfl

end Choice

/-! ## Layers -/

namespace Layer

/-- All that a layer has on a setting is a value that is no table, or nothing. -/
structure Says (l : Layer) (name : String) (v : Option SettingValue) : Prop where
  values : (l.entries.filter (·.1 = name)).map Prod.snd = v.toList
  /-- No key leads to a place inside the setting. -/
  outside : ∀ e ∈ l.entries, (KeyPath.ofText e.1).name = name → e.1 = name
  plain : ∀ b, v ≠ some (.table b)

end Layer

namespace Layered

variable {t : Layered} {l : Layer} {c d : Choice} {name origin : String} {v : Option SettingValue}
  {es : List (String × SettingValue)}

theorem lay_of_plain {v : SettingValue} (hv : ∀ b, v ≠ .table b) (below : Option Sourced) :
    lay origin v below = ⟨v, some origin⟩ := by
  cases v with
  | table b => exact absurd rfl (hv b)
  | _ => rfl

/-- Of the entries for a setting the last one counts; entries for other settings do not. -/
theorem find?_foldl_layEntry (hname : KeyPath.ofText name = ⟨name, none⟩)
    (houtside : ∀ e ∈ es, (KeyPath.ofText e.1).name = name → e.1 = name)
    (hplain : ∀ e ∈ es, e.1 = name → ∀ b, e.2 ≠ .table b) (t : Layered) :
    (es.foldl (layEntry origin) t).find? name =
      ((es.filter (·.1 = name)).getLast?.map fun e => ⟨e.2, some origin⟩).or (t.find? name) := by
  induction es generalizing t with
  | nil => rfl
  | cons e es ih =>
    rw [List.forall_mem_cons] at houtside hplain
    rw [List.foldl_cons, ih houtside.2 hplain.2]
    by_cases he : e.1 = name
    · have hlaid : (layEntry origin t e).find? name = some ⟨e.2, some origin⟩ := by
        simp only [layEntry, he, hname, Table.find?_insert, lay_of_plain (hplain.1 he), if_true]
      rw [hlaid, List.filter_cons_of_pos (by simpa using he), List.getLast?_cons]
      cases (es.filter (·.1 = name)).getLast? <;> rfl
    · have hother : (KeyPath.ofText e.1).name ≠ name := fun h => he (houtside.1 h)
      have hlaid : (layEntry origin t e).find? name = t.find? name := by
        simp only [layEntry, Table.find?_insert, if_neg hother]
      rw [hlaid, List.filter_cons_of_neg (by simpa using he)]

/-- **A layer takes over a setting that it has a value for.** Otherwise the setting stays as it
is. -/
theorem find?_layOn (hname : name ∈ settingNames) (h : l.Says name v) (t : Layered) :
    (t.layOn l).find? name = (v.map fun v => ⟨v, some l.origin⟩).or (t.find? name) := by
  have hplain : ∀ e ∈ l.entries, e.1 = name → ∀ b, e.2 ≠ .table b := by
    intro e he hkey b hb
    have hmem : e.2 ∈ (l.entries.filter (·.1 = name)).map Prod.snd :=
      List.mem_map_of_mem (List.mem_filter.mpr ⟨he, by simpa using hkey⟩)
    rw [h.values, Option.mem_toList] at hmem
    exact h.plain b (hb ▸ hmem)
  have hlast : (l.entries.filter (·.1 = name)).getLast?.map Prod.snd = v := by
    rw [← List.getLast?_map, h.values]
    cases v <;> rfl
  rw [layOn, find?_foldl_layEntry (KeyPath.ofText_of_mem name hname) h.outside hplain, ← hlast,
    Option.map_map]
  rfl

/-- Layers that lie on each other show a choice. -/
def Shows (t : Layered) (c : Choice) : Prop :=
  ∀ k : SettingKey, (t.find? k.name).map Sourced.value = c.value k

/-- **Layers show what the choices come to.** -/
theorem shows_layOn (ht : t.Shows d) (hl : ∀ k : SettingKey, l.Says k.name (c.value k)) :
    (t.layOn l).Shows (c.before d) := by
  intro k
  rw [find?_layOn k.name_mem (hl k), Option.map_or, ht k, Choice.value_before, Option.map_map]
  cases c.value k <;> rfl

end Layered

/-! ## Settings -/

namespace Settings

variable {t : Layered} {c : Choice} {s : Settings}

theorem shows_base : base.Shows .standard := by
  unfold Layered.Shows
  decide +kernel

/-- **Settings are read one by one.** -/
theorem ofLayered_eq_ok_iff : ofLayered t = .ok s ↔
    pairsOf t = .ok s.pairs ∧ (∀ k, textOf t k = .ok (s.text k)) ∧
      ∀ k, numberOf t k = .ok (s.number k) := by
  constructor
  · intro h
    simp only [ofLayered, bind, Except.bind, pure, Except.pure] at h
    repeat' split at h
    all_goals first | contradiction | skip
    obtain rfl := Except.ok.inj h
    refine ⟨‹_›, fun k => ?_, fun k => ?_⟩ <;> cases k <;> assumption
  · rintro ⟨hpairs, htext, hnumber⟩
    simp only [ofLayered, hpairs, htext, hnumber]
    rfl

/-- What layers show of a setting has some source. -/
theorem exists_find?_of_shows (h : t.Shows c) {k : SettingKey} {v : SettingValue}
    (hv : c.value k = some v) : ∃ origin, t.find? k.name = some ⟨v, origin⟩ := by
  have hshown := h k
  rw [hv, Option.map_eq_some_iff] at hshown
  obtain ⟨⟨_, origin⟩, hfind, rfl⟩ := hshown
  exact ⟨origin, hfind⟩

theorem numberOf_of_shows (h : t.Shows c) {k : NumberKey} {n : ℕ} (hn : c.number k = some n) :
    numberOf t k = .ok (n % Nat.pow 2 k.bits) := by
  have hvalue : c.value (.number k) = some (.integer n) := by simp [Choice.value, hn]
  obtain ⟨origin, hfind⟩ := exists_find?_of_shows h hvalue
  have hread : Sourced.toNumber k.name ⟨.integer n, origin⟩ = .ok n := by
    simp [Sourced.toNumber]
  change t.find? k.name = _ at hfind
  rw [numberOf, hfind]
  simp only [hread]
  rfl

theorem textOf_of_shows (h : t.Shows c) {k : TextKey} {s : String} (hs : c.text k = some s) :
    textOf t k = .ok s := by
  have hvalue : c.value (.text k) = some (.text s) := by simp [Choice.value, hs]
  obtain ⟨origin, hfind⟩ := exists_find?_of_shows h hvalue
  change t.find? k.name = _ at hfind
  rw [textOf, hfind]
  rfl

theorem pairsOf_of_shows (h : t.Shows c) : pairsOf t = .ok (c.pairs.bind readPairs) := by
  cases hpairs : c.pairs with
  | none =>
    have hshown := h .pairs
    rw [Choice.value, hpairs] at hshown
    have hfind : t.find? pairsName = none := Option.map_eq_none_iff.mp hshown
    rw [pairsOf, hfind]
    rfl
  | some s =>
    have hvalue : c.value .pairs = some (.text s) := by simp [Choice.value, hpairs]
    obtain ⟨origin, hfind⟩ := exists_find?_of_shows h hvalue
    change t.find? pairsName = _ at hfind
    rw [pairsOf, hfind]
    rfl

/-- **What layers show is what the settings are,** as far as there is room. -/
theorem ofLayered_of_shows (h : t.Shows (c.before .standard)) :
    ofLayered t = .ok c.wrapped.settings := by
  refine ofLayered_eq_ok_iff.mpr ⟨?_, fun k => ?_, fun k => ?_⟩
  · rw [pairsOf_of_shows h]
    exact congrArg (fun p : Option String => Except.ok (p.bind readPairs)) (Option.or_none ..)
  · refine textOf_of_shows h ?_
    rw [Choice.settings_text]
    exact Option.or_some ..
  · rw [Choice.settings_wrapped_number]
    exact numberOf_of_shows h (Option.or_some ..)

end Settings

end MarketFeed
