import MarketFeed.Proofs.Json.Members
import MarketFeed.Proofs.Settings.Environment
import MarketFeed.Settings.Load

/-!
# Which source a setting comes from

A setting has the value of the first source that sets it: the environment, the file of variables,
the usual file of settings, and at last the standard. No source changes a setting that it does not
name.

## Main definitions

* `Layer.Sets l c`: a file of settings sets a choice
* `Files.UsualSets files c`: the usual file of settings does
* `Settings.Sources`: what the environment, the file of variables and the usual file set

## Main results

* `Files.nodup_layer`: a file of settings has every key once
* `Settings.Sources.load`: settings come from their sources, as far as there is room
* `Settings.load_overrides`: a setting has the value of the first source that sets it
* `Settings.load_pathKey`: a key that is no setting may change one it leads into
-/

namespace MarketFeed

/-- the choice of some texts and numbers -/
def Choice.ofLists (pairs : Option String) (texts : List (TextKey × String))
    (numbers : List (NumberKey × ℕ)) : Choice :=
  ⟨pairs, fun k => texts.lookup k, fun k => numbers.lookup k⟩

/-! ## Files of settings -/

/-- A file of settings sets a choice, and what else it sets leads to no setting. -/
structure Layer.Sets (l : Layer) (c : Choice) : Prop where
  value : ∀ k : SettingKey, l.entries.lookup k.name = c.value k
  foreign : ∀ e ∈ l.entries, e.1 ∈ settingNames ∨ IsForeign e.1

/-- A layer with every key once says what is looked up in it. -/
theorem Layer.says_lookup {l : Layer} {name : String} (hnodup : (l.entries.map Prod.fst).Nodup)
    (houtside : ∀ e ∈ l.entries, (KeyPath.ofText e.1).name = name → e.1 = name)
    (hplain : ∀ b, l.entries.lookup name ≠ some (.table b)) :
    l.Says name (l.entries.lookup name) :=
  ⟨values_of_nodup hnodup name, houtside, hplain⟩

theorem Layer.Sets.says_value {l : Layer} {c : Choice} (h : l.Sets c)
    (hnodup : (l.entries.map Prod.fst).Nodup) (k : SettingKey) : l.Says k.name (c.value k) := by
  rw [← h.value k]
  refine Layer.says_lookup hnodup (fun e he hpath => ?_) fun b => ?_
  · rcases h.foreign e he with hmem | hforeign
    · rwa [KeyPath.ofText_of_mem e.1 hmem] at hpath
    · exact absurd (hpath ▸ k.name_mem) hforeign.1
  · rw [h.value]
    exact c.value_ne_table k b

/-- A text that is read has every key once, whatever its format. -/
theorem Format.nodup_read {f : Format} {origin text : String} {l : Layer}
    (h : f.read origin text = some l) : (l.entries.map Prod.fst).Nodup := by
  cases f with
  | toml =>
    obtain ⟨ms, hms, rfl⟩ := Option.map_eq_some_iff.mp h
    simpa [Function.comp_def] using Toml.nodup_read hms
  | json =>
    change Layer.ofJson origin text = some l at h
    rw [Layer.ofJson] at h
    split at h
    · obtain rfl := Option.some.inj h
      simpa [Function.comp_def] using (Json.ordered_settled _).nodup_keys
    · obtain rfl := Option.some.inj h
      exact List.nodup_nil
    · cases h
  | other => cases h

namespace Files

variable {files : Files} {path : String} {l : Layer} {c : Choice}

/-- **A file of settings has every key once.** -/
theorem nodup_layer (h : files.layer path = .ok l) : (l.entries.map Prod.fst).Nodup := by
  rw [layer] at h
  cases hlocate : files.locate path with
  | error f =>
    rw [hlocate] at h
    cases h
  | ok found =>
    obtain ⟨name, text, format⟩ := found
    simp only [hlocate, bind, Except.bind] at h
    split at h
    · rename_i l' hread
      obtain rfl := Except.ok.inj h
      exact Format.nodup_read hread
    · cases h

/-- The usual file of settings sets a choice. It is the only one there is; if it is not there, it is
as good as empty. -/
structure UsualSets (files : Files) (c : Choice) : Prop where
  sets : ∃ l, Layer.ofToml "market-data.toml" ((files.find? "market-data.toml").getD "") = some l ∧
    l.Sets c
  bare : files.find? "market-data" = none
  others : files.find? "market-data.toml" = none →
    ∀ e ∈ Format.endings, files.find? s!"market-data.{e.1}" = none

/-- the file that has an ending of the usual ones, if it is there -/
theorem locate_usualFile (hbare : files.find? "market-data" = none) :
    files.locate Settings.usualFile =
      match Format.endings.findSome? fun (e, format) =>
        (files.find? s!"market-data.{e}").map fun text => (s!"market-data.{e}", text, format) with
      | some r => .ok r
      | none => .error (.missingFile Settings.usualFile) := by
  have hplain : plainPath Settings.usualFile = "market-data" := by decide +kernel
  rw [locate]
  simp only [hplain, hbare]
  rfl

theorem locate_toml (hbare : files.find? "market-data" = none) {text : String}
    (h : files.find? "market-data.toml" = some text) :
    files.locate Settings.usualFile = .ok ("market-data.toml", text, .toml) := by
  have hname : toString "market-data." ++ toString "toml" = "market-data.toml" := by decide
  rw [locate_usualFile hbare]
  simp only [Format.endings, List.findSome?_cons, hname, h, Option.map_some]

theorem locate_none (hbare : files.find? "market-data" = none)
    (h : ∀ e ∈ Format.endings, files.find? s!"market-data.{e.1}" = none) :
    files.locate Settings.usualFile = .error (.missingFile Settings.usualFile) := by
  have hnone : (Format.endings.findSome? fun (e, format) =>
      (files.find? s!"market-data.{e}").map fun text =>
        (s!"market-data.{e}", text, format)) = none := by
    refine List.findSome?_eq_none_iff.mpr fun e he => ?_
    exact Option.map_eq_none_iff.mpr (h e he)
  rw [locate_usualFile hbare, hnone]

/-- The usual file of settings is found, or there is none. -/
theorem UsualSets.optionalLayers (h : files.UsualSets c) :
    ∃ ls, files.optionalLayers Settings.usualFile = .ok ls ∧
      ∀ t d, Layered.Shows t d → (ls.foldl Layered.layOn t).Shows (c.before d) := by
  obtain ⟨l, hl, hsets⟩ := h.sets
  cases hfile : files.find? "market-data.toml" with
  | none =>
    have hmissing := locate_none h.bare (h.others hfile)
    refine ⟨[], by rw [Files.optionalLayers, layer, hmissing]; rfl, fun t d ht k => ?_⟩
    have hempty : Layer.ofToml "market-data.toml" "" = some ⟨"market-data.toml", []⟩ := by
      decide +kernel
    rw [hfile] at hl
    obtain rfl := Option.some.inj (hempty.symm.trans hl)
    rw [List.foldl_nil, ht k, Choice.value_before, ← hsets.value k]
    rfl
  | some text =>
    rw [hfile] at hl
    have hlayer : files.layer Settings.usualFile = .ok l := by
      have hread : Format.toml.read "market-data.toml" text = some l := hl
      simp only [layer, locate_toml h.bare hfile, bind, Except.bind, hread]
    refine ⟨[l], by rw [Files.optionalLayers, hlayer], fun t d ht => ?_⟩
    exact Layered.shows_layOn ht (hsets.says_value (nodup_layer hlayer))

/-- The variables after the file of variables; a file that is not there is as good as an empty
one. -/
def environment (files : Files) (vs : Variables) : Variables :=
  vs.withFile ((files.find? ".env").getD "")

theorem nodup_environment {vs : Variables} (h : (vs.map Prod.fst).Nodup) (files : Files) :
    ((files.environment vs).map Prod.fst).Nodup := Variables.nodup_withFile h _

end Files

namespace Settings

theorem load_eq {files : Files} {ls : List Layer}
    (h : files.optionalLayers usualFile = .ok ls) (vs : Variables) :
    load files vs = ofLayers (ls ++ [Layer.ofVariables (files.environment vs)]) := by
  rw [load, h]
  change _ = ofLayers (ls ++ [Layer.ofVariables (vs.withFile ((files.find? variableFile).getD ""))])
  cases files.find? variableFile with
  | none =>
    rw [Option.getD_none, Variables.withFile_empty]
    rfl
  | some text => rfl

/-- What the environment, the file of variables and the usual file of settings set. -/
structure Sources (files : Files) (vs : Variables) (env dot file : Choice) : Prop where
  nodup : (vs.map Prod.fst).Nodup
  spelled : Variables.Spelled (vs ++ vs.assigned ((files.find? ".env").getD ""))
  environment : vs.Sets env
  assigned : Variables.Sets (vs.assigned ((files.find? ".env").getD "")) dot
  usual : files.UsualSets file

section Loading

variable {files : Files} {vs : Variables} {env dot file : Choice}

/-- Settings come from the first source that sets them, as far as there is room. -/
theorem Sources.load (h : Sources files vs env dot file) :
    Settings.load files vs = .ok (env.before (dot.before file)).wrapped.settings := by
  obtain ⟨ls, hls, hshows⟩ := h.usual.optionalLayers
  have hsets := h.environment.withFile h.assigned
  have hshown := Layered.shows_layOn (hshows base .standard shows_base)
    (hsets.says_ofVariables (files.nodup_environment h.nodup) h.spelled.withFile)
  rw [← Choice.before_assoc, Choice.before_assoc env] at hshown
  rw [load_eq hls, ofLayers, List.foldl_append]
  exact ofLayered_of_shows hshown

theorem loadFrom_of_sets {path : String} {l : Layer} (hlayer : files.layer path = .ok l)
    (hsets : l.Sets file) : loadFrom files path = .ok file.wrapped.settings := by
  have hshown := Layered.shows_layOn shows_base (hsets.says_value (Files.nodup_layer hlayer))
  rw [loadFrom, hlayer]
  exact ofLayered_of_shows hshown

end Loading

/-- **A setting has the value of the first source that sets it:** the environment, the file of
variables, the usual file of settings, and at last the standard. With a given file instead, there
are the file and the standard alone. -/
theorem load_overrides :
    (∀ {files : Files} {vs : Variables} {env dot file : Choice},
      Sources files vs env dot file → (env.before (dot.before file)).Fits →
        load files vs = .ok (env.before (dot.before file)).settings) ∧
    ∀ {files : Files} {path : String} {l : Layer} {file : Choice}, files.layer path = .ok l →
      l.Sets file → file.Fits → loadFrom files path = .ok file.settings := by
  refine ⟨fun hsources hfits => ?_, fun hlayer hsets hfits => ?_⟩
  · rw [hsources.load, Choice.wrapped_of_fits hfits]
  · rw [loadFrom_of_sets hlayer hsets, Choice.wrapped_of_fits hfits]

/-- files that set some settings, one of them twice, and a key that is no setting -/
def sampleFiles : Files :=
  ⟨[("market-data.toml", "health_port = 8080\ndepth_levels = 3\n\"other.key\" = 1\n"),
    (".env", "CBPRO_TRADING_PAIRS=' btc-usd, eth-usd'\nCBPRO_DEPTH_LEVELS=4\n")]⟩

/-- variables that set two settings, of which one is set by the files as well -/
def sampleVariables : Variables :=
  [("PATH", "/bin"), ("CBPRO_DEPTH_LEVELS", "5"), ("CBPRO_WS_ENDPOINT", "ws://a")]

/-- The environment, the file of variables and the usual file set something each, and all of them
one number. -/
theorem load_overrides_sample :
    load sampleFiles sampleVariables =
        .ok { standard with
          pairs := some ["BTC-USD", "ETH-USD"], wsEndpoint := "ws://a", depthLevels := 5,
          healthPort := 8080 } ∧
      loadFrom sampleFiles "market-data.toml" =
        .ok { standard with depthLevels := 3, healthPort := 8080 } := by
  have hassigned : sampleVariables.assigned ((sampleFiles.find? ".env").getD "") =
      [("CBPRO_TRADING_PAIRS", " btc-usd, eth-usd"), ("CBPRO_DEPTH_LEVELS", "4")] := by
    decide +kernel
  have hlayer : sampleFiles.layer "market-data.toml" = .ok ⟨"market-data.toml",
      [("health_port", .integer 8080), ("depth_levels", .integer 3),
        ("other.key", .integer 1)]⟩ := by
    decide +kernel
  have hsets : Layer.Sets ⟨"market-data.toml", [("health_port", .integer 8080),
        ("depth_levels", .integer 3), ("other.key", .integer 1)]⟩
      (.ofLists none [] [(.healthPort, 8080), (.depthLevels, 3)]) :=
    ⟨by decide +kernel, by decide +kernel⟩
  have hsources : Sources sampleFiles sampleVariables
      (.ofLists none [(.wsEndpoint, "ws://a")] [(.depthLevels, 5)])
      (.ofLists (some " btc-usd, eth-usd") [] [(.depthLevels, 4)])
      (.ofLists none [] [(.healthPort, 8080), (.depthLevels, 3)]) := by
    refine ⟨by decide, ?_, ?_, ?_, ⟨⟨_, by decide +kernel, hsets⟩, by decide +kernel,
      by decide +kernel⟩⟩
    · rw [hassigned]
      decide +kernel
    · exact ⟨by decide +kernel, by decide +kernel, rel_writesInteger_of_eq (by decide +kernel),
        by decide +kernel, by simp [Choice.ofLists], by decide +kernel, by decide +kernel⟩
    · rw [hassigned]
      exact ⟨by decide +kernel, by decide +kernel, rel_writesInteger_of_eq (by decide +kernel),
        by decide +kernel, by decide +kernel, by simp [Choice.ofLists], by decide +kernel⟩
  have hload := load_overrides.1 hsources (by decide +kernel)
  have hloadFrom := load_overrides.2 hlayer hsets (by decide +kernel)
  refine ⟨hload.trans ?_, hloadFrom.trans ?_⟩ <;> decide +kernel

/-- An unknown key that leads into a setting is no such key: the file sets nothing, but it spoils
the setting. -/
theorem load_pathKey :
    Layer.ofToml "market-data.toml" "\"health_port.x\" = 1\n" =
        some ⟨"market-data.toml", [("health_port.x", .integer 1)]⟩ ∧
      "health_port.x" ∉ settingNames ∧
      load ⟨[("market-data.toml", "\"health_port.x\" = 1\n")]⟩ [] =
        .error (.mistyped "map" "an integer" "health_port" none) := by
  decide +kernel

end Settings

end MarketFeed
