import MarketFeed.Proofs.Decimal.Exact
import MarketFeed.Proofs.Settings.Documents

/-!
# What becomes of integers

A setting that is a number keeps as many low bits of an integer as it has, whatever the others are,
so that a greater integer turns into another number without a word. An integer beyond the signed
ones of 64 bits moreover passes through a double, which costs it its last eleven bits, or makes it
the greatest number of 64 bits, or zero. Only a TOML file is refused then.

## Main definitions

* `integerRead? n`: the number that is read where an integer is set
* `NumberKey.Keeps k n`: a setting comes to be this very integer
* `NumberKey.Takes k n m`: a setting comes to be what is read from an integer, as far as it has room

## Main results

* `Sourced.toNumber_ofInteger`: what is read where an integer is set
* `wrapped_eq_iff`: the integers that come through
* `Settings.load_narrows`: what a number is that an integer sets
* `Settings.loadFrom_wraps`: a port that is another one than the file says
-/

namespace MarketFeed

open Text

/-! ## Reading -/

/-- The number that is read where an integer is set: nothing if it is refused. -/
def integerRead? (n : ℤ) : Option ℕ :=
  if n < -2 ^ 63 then some 0
  else if n < 0 then none
  else if n < 2 ^ 63 then some n.toNat
  else some (min (2 ^ 64 - 1) (divNearestEven n.toNat (2 ^ 11) * 2 ^ 11))

/-- A setting comes to be this very integer where it is set. -/
def NumberKey.Keeps (k : NumberKey) (n : ℤ) : Prop :=
  0 ≤ n ∧ n < 2 ^ k.bits ∧ (n < 2 ^ 63 ∨ 2 ^ 11 ∣ n ∨ n = 2 ^ 64 - 1)

namespace Sourced

variable {name : String} {origin : Option String} {n : ℤ} {m : ℕ}

theorem toNumber_integer :
    toNumber name ⟨.integer n, origin⟩ = .ok m ↔ 0 ≤ n ∧ m = n.toNat := by
  simp only [toNumber]
  by_cases hn : 0 ≤ n
  · rw [if_pos hn, Except.ok.injEq, eq_comm]
    exact (and_iff_right hn).symm
  · rw [if_neg hn]
    exact iff_of_false (by simp [refuse]) fun h => hn h.1

/-- **What is read where an integer is set.** -/
theorem toNumber_ofInteger :
    toNumber name ⟨.ofInteger n, origin⟩ = .ok m ↔ integerRead? n = some m := by
  rw [SettingValue.ofInteger, integerRead?]
  by_cases hrange : -2 ^ 63 ≤ n ∧ n < 2 ^ 63
  · rw [if_pos hrange, toNumber_integer, if_neg (by omega)]
    by_cases hn : n < 0
    · rw [if_pos hn]
      exact iff_of_false (by omega) (by simp)
    · rw [if_neg hn, if_pos hrange.2, Option.some.injEq, eq_comm]
      exact and_iff_right (by omega)
  · rw [if_neg hrange]
    have hmax : maxNumber = 2 ^ 64 - 1 := rfl
    simp only [toNumber, Except.ok.injEq, hmax]
    by_cases hn : n < -2 ^ 63
    · rw [decide_eq_true (show n < 0 by omega), Binary64.toNatAtMost_ofPower10_true, if_pos hn,
        Option.some.injEq]
    · rw [decide_eq_false (show ¬ n < 0 by omega),
        Binary64.toNatAtMost_ofPower10 (show 2 ^ 63 ≤ n.natAbs by omega), if_neg hn,
        if_neg (by omega), if_neg (by omega), Option.some.injEq]
      have habs : n.natAbs = n.toNat := by omega
      rw [habs]

end Sourced

/-! ## Integers that come through -/

theorem NumberKey.bits_cases (k : NumberKey) : k.bits ≤ 32 ∨ k.bits = 64 := by
  cases k <;> decide

theorem wrapped_toNat_eq_iff {n : ℤ} (hn : 0 ≤ n) (bits : ℕ) :
    ((n.toNat % 2 ^ bits : ℕ) : ℤ) = n ↔ n < 2 ^ bits := by
  obtain ⟨m, rfl⟩ := Int.eq_ofNat_of_zero_le hn
  rw [Int.toNat_natCast, Nat.cast_inj, Nat.mod_eq_iff_lt (by positivity)]
  exact_mod_cast Iff.rfl

/-- **Of the integers beyond 63 bits those come through that eleven bits less write,** and the
greatest one. -/
theorem rounded_eq_iff {n : ℤ} (hn : 2 ^ 63 ≤ n) :
    ((min (2 ^ 64 - 1) (divNearestEven n.toNat (2 ^ 11) * 2 ^ 11) : ℕ) : ℤ) = n ↔
      n < 2 ^ 64 ∧ (2 ^ 11 ∣ n ∨ n = 2 ^ 64 - 1) := by
  obtain ⟨m, rfl⟩ := Int.eq_ofNat_of_zero_le (show 0 ≤ n by omega)
  rw [Int.toNat_natCast, Nat.cast_inj]
  constructor
  · intro h
    refine ⟨by omega, ?_⟩
    rcases min_choice (2 ^ 64 - 1) (divNearestEven m (2 ^ 11) * 2 ^ 11) with hmin | hmin
    · exact .inr (by omega)
    · refine .inl (Int.natCast_dvd_natCast.mpr ?_)
      rw [← h, hmin]
      exact Nat.dvd_mul_left _ _
  · rintro ⟨hroom, hdvd | hmax⟩
    · obtain ⟨q, rfl⟩ : 2 ^ 11 ∣ m := by exact_mod_cast hdvd
      rw [Nat.mul_comm (2 ^ 11), Decimal.divNearestEven_mul (by positivity)]
      exact min_eq_right (by omega)
    · obtain rfl : m = 2 ^ 64 - 1 := by omega
      decide

theorem wrapped_rounded_eq_iff (k : NumberKey) {n : ℤ} (hn : 2 ^ 63 ≤ n) :
    ((min (2 ^ 64 - 1) (divNearestEven n.toNat (2 ^ 11) * 2 ^ 11) % 2 ^ k.bits : ℕ) : ℤ) = n ↔
      n < 2 ^ k.bits ∧ (2 ^ 11 ∣ n ∨ n = 2 ^ 64 - 1) := by
  rcases k.bits_cases with hbits | hbits
  · have hroom : 2 ^ k.bits ≤ 2 ^ 32 := Nat.pow_le_pow_right (by decide) hbits
    have hlt := Nat.mod_lt (min (2 ^ 64 - 1) (divNearestEven n.toNat (2 ^ 11) * 2 ^ 11))
      (show 0 < 2 ^ k.bits by positivity)
    have hcast : ((2 ^ k.bits : ℕ) : ℤ) = 2 ^ k.bits := by push_cast; rfl
    exact iff_of_false (by omega) fun hkept => absurd hkept.1 (by omega)
  · rw [hbits, Nat.mod_eq_of_lt (by omega), rounded_eq_iff hn]

/-- **The integers that come through** are those that have room and are read as they are. -/
theorem wrapped_eq_iff {k : NumberKey} {n : ℤ} {m : ℕ} (h : integerRead? n = some m) :
    ((m % 2 ^ k.bits : ℕ) : ℤ) = n ↔ k.Keeps n := by
  rw [integerRead?] at h
  split at h
  · obtain rfl := Option.some.inj h
    rw [Nat.zero_mod]
    exact iff_of_false (by omega) fun hkeeps => absurd hkeeps.1 (by omega)
  · split at h
    · cases h
    · rename_i hlow hneg
      rw [NumberKey.Keeps, and_iff_right (by omega)]
      split at h
      · rename_i hhigh
        obtain rfl := Option.some.inj h
        rw [wrapped_toNat_eq_iff (by omega)]
        exact (and_iff_left (.inl hhigh)).symm
      · rename_i hhigh
        obtain rfl := Option.some.inj h
        rw [wrapped_rounded_eq_iff k (by omega)]
        exact and_congr_right fun _ => (or_iff_right hhigh).symm

/-! ## Numbers -/

/-- A setting comes to be what is read where an integer is set, as far as it has room. -/
structure NumberKey.Takes (k : NumberKey) (n : ℤ) (m : ℕ) : Prop where
  read : ∃ r, integerRead? n = some r ∧ m = r % 2 ^ k.bits
  exact_iff : (m : ℤ) = n ↔ k.Keeps n

namespace Settings

variable {files : Files} {vs : Variables} {path t : String} {l : Layer} {k : NumberKey} {n : ℤ}
  {s : Settings} {layers : Layered}

theorem takes_of_find? (h : ofLayered layers = .ok s) {origin : Option String}
    (hfind : layers.find? k.name = some ⟨.ofInteger n, origin⟩) : k.Takes n (s.number k) := by
  have hnumber := (ofLayered_eq_ok_iff.mp h).2.2 k
  rw [numberOf, hfind] at hnumber
  cases hread : Sourced.toNumber k.name ⟨.ofInteger n, origin⟩ with
  | error f =>
    simp only [hread] at hnumber
    cases hnumber
  | ok r =>
    simp only [hread] at hnumber
    have hread := Sourced.toNumber_ofInteger.mp hread
    have hmod : s.number k = r % 2 ^ k.bits := (Except.ok.inj hnumber).symm
    exact ⟨⟨r, hread, hmod⟩, by rw [hmod, wrapped_eq_iff hread]⟩

/-- What a file gives lies on the standard. -/
theorem find?_layOn_file (hlayer : files.layer path = .ok l) (hgives : l.Gives k.name n)
    (t : Layered) : (t.layOn l).find? k.name = some ⟨.ofInteger n, some l.origin⟩ := by
  have hsays : l.Says k.name (some (.ofInteger n)) := by
    rw [← hgives.value]
    refine Layer.says_lookup (Files.nodup_layer hlayer) hgives.outside fun b => ?_
    rw [hgives.value, ne_eq, Option.some.injEq]
    exact SettingValue.ofInteger_ne_table n b
  exact Layered.find?_layOn (SettingKey.name_mem (.number k)) hsays t

theorem exists_layers_of_load (h : load files vs = .ok s) :
    ∃ ls, files.optionalLayers usualFile = .ok ls ∧
      ofLayered ((ls.foldl Layered.layOn base).layOn (Layer.ofVariables (files.environment vs))) =
        .ok s := by
  cases hls : files.optionalLayers usualFile with
  | error f =>
    rw [load, hls] at h
    cases h
  | ok ls =>
    rw [load_eq hls, ofLayers, List.foldl_append] at h
    exact ⟨ls, rfl, h⟩

/-- A variable that sets a number goes before all files. -/
theorem takes_of_variable (hnodup : (vs.map Prod.fst).Nodup)
    (hlead : (files.environment vs).Lead k.name)
    (htext : (files.environment vs).textFor? k.name = some t) (hwrites : WritesInteger t n)
    (h : load files vs = .ok s) : k.Takes n (s.number k) := by
  obtain ⟨ls, -, h⟩ := exists_layers_of_load h
  have hsays := Variables.says_ofVariables (files.nodup_environment hnodup) hlead
  have hfind := Layered.find?_layOn (SettingKey.name_mem (.number k)) hsays
    (ls.foldl Layered.layOn base)
  rw [htext, Option.map_some, SettingValue.ofText_of_writesInteger hwrites] at hfind
  exact takes_of_find? h hfind

/-- Where no variable sets a number, the usual file does. -/
theorem takes_of_usualFile (hnodup : (vs.map Prod.fst).Nodup)
    (hlead : (files.environment vs).Lead k.name)
    (hunset : (files.environment vs).textFor? k.name = none)
    (hlayer : files.layer usualFile = .ok l) (hgives : l.Gives k.name n)
    (h : load files vs = .ok s) : k.Takes n (s.number k) := by
  obtain ⟨ls, hls, h⟩ := exists_layers_of_load h
  rw [Files.optionalLayers, hlayer] at hls
  obtain rfl := Except.ok.inj hls
  have hsays := Variables.says_ofVariables (files.nodup_environment hnodup) hlead
  rw [hunset] at hsays
  have hfind := Layered.find?_layOn (SettingKey.name_mem (.number k)) hsays (base.layOn l)
  rw [Option.map_none, Option.map_none, Option.none_or] at hfind
  exact takes_of_find? h (hfind.trans (find?_layOn_file hlayer hgives base))

theorem takes_of_givenFile (hlayer : files.layer path = .ok l) (hgives : l.Gives k.name n)
    (h : loadFrom files path = .ok s) : k.Takes n (s.number k) := by
  rw [loadFrom, hlayer] at h
  exact takes_of_find? h (find?_layOn_file hlayer hgives base)

theorem number_wrapped {c : Choice} {m : ℕ} (hm : c.number k = some m) :
    c.wrapped.settings.number k = m % 2 ^ k.bits := by
  rw [Choice.settings_wrapped_number, hm, Option.getD_some, Nat.pow_eq]

/-- **What a number is that an integer sets.** No natural number that 64 bits hold with a sign is
refused: as many of its low bits are taken as there is room for. In general, if settings are loaded,
the variable, or else the file, that sets an integer leaves what is read from it, as far as there is
room, which is the integer itself just if nothing is lost on the way. A document of integers is such
a file: in TOML the integers are those that 64 bits hold with their sign, in JSON those that 64 bits
hold at all. -/
theorem load_narrows (k : NumberKey) (n : ℤ) :
    (∀ {files : Files} {vs : Variables} {env dot file : Choice} {m : ℕ},
      Sources files vs env dot file → (env.before (dot.before file)).number k = some m →
        ∃ s, load files vs = .ok s ∧ s.number k = m % 2 ^ k.bits) ∧
    (∀ {files : Files} {path : String} {l : Layer} {file : Choice} {m : ℕ},
      files.layer path = .ok l → l.Sets file → file.number k = some m →
        ∃ s, loadFrom files path = .ok s ∧ s.number k = m % 2 ^ k.bits) ∧
    (∀ {files : Files} {vs : Variables} {t : String} {s : Settings}, (vs.map Prod.fst).Nodup →
      (files.environment vs).Lead k.name → (files.environment vs).textFor? k.name = some t →
      WritesInteger t n → load files vs = .ok s → k.Takes n (s.number k)) ∧
    (∀ {files : Files} {vs : Variables} {l : Layer} {s : Settings}, (vs.map Prod.fst).Nodup →
      (files.environment vs).Lead k.name → (files.environment vs).textFor? k.name = none →
      files.layer usualFile = .ok l → l.Gives k.name n → load files vs = .ok s →
        k.Takes n (s.number k)) ∧
    (∀ {files : Files} {path : String} {l : Layer} {s : Settings}, files.layer path = .ok l →
      l.Gives k.name n → loadFrom files path = .ok s → k.Takes n (s.number k)) ∧
    ∀ {files : Files} {path name : String} {ls : List (String × ℤ)} {l : Layer},
      files.layer path = .ok l → (∀ l ∈ ls, Toml.IsWord l.1.toList) →
        (files.locate path = .ok (name, Toml.linesText ls, .toml) → (k.name, n) ∈ ls →
          (-2 ^ 63 ≤ n ∧ n < 2 ^ 63) ∧ l.Gives k.name n) ∧
        (files.locate path = .ok (name, (Json.ofIntegers ls).text, .json) →
          (∀ l ∈ ls, Json.IntegerFits l.2) → Json.lookup? k.name ls = some n →
            l.Gives k.name n) := by
  refine ⟨fun hsources hm => ⟨_, hsources.load, number_wrapped hm⟩,
    fun hlayer hsets hm => ⟨_, loadFrom_of_sets hlayer hsets, number_wrapped hm⟩,
    takes_of_variable, takes_of_usualFile, takes_of_givenFile, fun hlayer hwords => ⟨?_, ?_⟩⟩
  · exact fun hlocate hmem => Files.gives_of_linesText hlocate hwords hmem hlayer
  · exact fun hlocate hfits hlookup =>
      Files.gives_of_ofIntegers hlocate (fun l hl => ⟨hwords l hl, hfits l hl⟩) hlookup hlayer

/-- a file with a port that is too great -/
def greatPort : Files := ⟨[("market-data.toml", "health_port = 70000\n")]⟩

/-- a variable with a count that is too great -/
def greatCount : Variables := [("CBPRO_TICKER_MAX_ATTEMPTS", "4294967316")]

/-- a file with an integer that a double cannot hold -/
def greatDelay : Files :=
  ⟨[("a.json", "\x7b\"ticker_retry_delay_ms\":9223372036854775809\x7d")]⟩

/-- Ports and counts lose their high bits, and one more than `2 ^ 63` loses its last bit. -/
theorem load_narrows_samples :
    (∃ s, load greatPort greatCount = .ok s ∧ s.number .tickerMaxAttempts = 20) ∧
      (∃ s, loadFrom greatPort usualFile = .ok s ∧ s.number .healthPort = 4464) ∧
      NumberKey.tickerMaxAttempts.Takes (2 ^ 32 + 20) 20 ∧ NumberKey.healthPort.Takes 70000 4464 ∧
      NumberKey.tickerRetryDelayMs.Takes (2 ^ 63 + 1) (2 ^ 63) := by
  have hload : load greatPort greatCount =
      .ok { standard with tickerMaxAttempts := 20, healthPort := 4464 } := by
    decide +kernel
  have hgiven : loadFrom greatDelay "a" = .ok { standard with tickerRetryDelayMs := 2 ^ 63 } := by
    decide +kernel
  have hlayer : greatPort.layer usualFile =
      .ok ⟨"market-data.toml", [("health_port", .integer 70000)]⟩ := by
    decide +kernel
  have hsets : Layer.Sets ⟨"market-data.toml", [("health_port", .integer 70000)]⟩
      (.ofLists none [] [(.healthPort, 70000)]) :=
    ⟨by decide +kernel, by decide +kernel⟩
  have hunassigned : greatCount.assigned ((greatPort.find? ".env").getD "") = [] := by
    decide +kernel
  have hsources : Sources greatPort greatCount (.ofLists none [] [(.tickerMaxAttempts, 4294967316)])
      (.ofLists none [] []) (.ofLists none [] [(.healthPort, 70000)]) := by
    refine ⟨by decide, ?_, ?_, ?_, ⟨⟨_, by decide +kernel, hsets⟩, by decide +kernel,
      by decide +kernel⟩⟩
    · rw [hunassigned]
      decide +kernel
    · exact ⟨by decide +kernel, by decide +kernel, rel_writesInteger_of_eq (by decide +kernel),
        by decide +kernel, by simp [Choice.ofLists], by simp [Choice.ofLists], by decide +kernel⟩
    · rw [hunassigned]
      exact ⟨by decide +kernel, by decide +kernel, rel_writesInteger_of_eq (by decide +kernel),
        by decide +kernel, by simp [Choice.ofLists], by simp [Choice.ofLists], by decide +kernel⟩
  refine ⟨(load_narrows .tickerMaxAttempts 0).1 (m := 4294967316) hsources (by decide +kernel),
    (load_narrows .healthPort 0).2.1 (m := 70000) hlayer hsets (by decide +kernel), ?_, ?_, ?_⟩
  · have hwrites : WritesInteger "4294967316" (2 ^ 32 + 20) :=
      (by decide +kernel : String.ofList (digits (2 ^ 32 + 20)) = "4294967316") ▸
        writesInteger_digits (2 ^ 32 + 20)
    exact (load_narrows .tickerMaxAttempts (2 ^ 32 + 20)).2.2.1 (by decide)
      ⟨by decide +kernel, by decide +kernel⟩ (by decide +kernel) hwrites hload
  · have hlocate : greatPort.locate usualFile =
        .ok ("market-data.toml", Toml.linesText [("health_port", 70000)], .toml) := by
      decide +kernel
    obtain ⟨-, -, -, husual, -, hdocument⟩ := load_narrows .healthPort 70000
    have hgives := (hdocument hlayer (by decide +kernel)).1 hlocate (List.mem_singleton.mpr rfl)
    exact husual (by decide) ⟨by decide +kernel, by decide +kernel⟩ (by decide +kernel) hlayer
      hgives.2 hload
  · have hlayer : greatDelay.layer "a" =
        .ok ⟨"a.json", [("ticker_retry_delay_ms", .ofInteger (2 ^ 63 + 1))]⟩ := by
      decide +kernel
    have hlocate : greatDelay.locate "a" =
        .ok ("a.json", (Json.ofIntegers [("ticker_retry_delay_ms", 2 ^ 63 + 1)]).text, .json) := by
      decide +kernel
    obtain ⟨-, -, -, -, hfile, hdocument⟩ := load_narrows .tickerRetryDelayMs (2 ^ 63 + 1)
    have hgives := (hdocument hlayer (by decide +kernel)).2 hlocate
      (List.forall_mem_singleton.mpr ⟨by decide, by decide⟩) (by decide +kernel)
    exact hfile hlayer hgives hgiven

/-- A port that has no room for an integer is another one than the file says. -/
theorem loadFrom_wraps :
    loadFrom ⟨[("a.toml", Toml.linesText [("health_port", 70000)])]⟩ "a.toml" =
      .ok { standard with healthPort := 4464 } := by
  decide +kernel

end Settings

end MarketFeed
