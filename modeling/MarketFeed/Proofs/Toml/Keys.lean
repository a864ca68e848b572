import Mathlib.Data.List.Nodup
import MarketFeed.Toml.Document

/-!
# Keys of TOML documents

A document that repeats a key is malformed, whether the key stands on a line of its own, begins the
keys of several lines, or is named by the header of a section. So the table that a document is has
every key once.

## Main results

* `nodup_closeEntries`: the table that entries make has every key once
* `nodup_assemble`: sections leave the keys of a table distinct
* `nodup_read`: a document has every key once
-/

namespace MarketFeed

section Lookup

variable {α : Type} {k : String} {ps : List (String × α)}

/-- The keys that are not looked up in vain are those that stand somewhere. -/
theorem lookup_eq_none_iff_notMem : ps.lookup k = none ↔ k ∉ ps.map Prod.fst := by
  rw [List.lookup_eq_none_iff, List.mem_map, not_exists]
  constructor
  · rintro h p ⟨hp, rfl⟩
    exact bne_iff_ne.mp (h p hp) rfl
  · exact fun h p hp => bne_iff_ne.mpr fun hk => h p ⟨hp, hk.symm⟩

theorem nodup_append_of_lookup_eq_none (hps : (ps.map Prod.fst).Nodup) (hk : ps.lookup k = none)
    (a : α) : ((ps ++ [(k, a)]).map Prod.fst).Nodup := by
  rw [List.map_append]
  exact hps.append (List.nodup_singleton _)
    (List.disjoint_singleton.mpr (lookup_eq_none_iff_notMem.mp hk))

/-- Where every key stands once, a key has the value that is looked up and no other. -/
theorem values_of_nodup (h : (ps.map Prod.fst).Nodup) (k : String) :
    (ps.filter (·.1 = k)).map Prod.snd = (ps.lookup k).toList := by
  induction ps with
  | nil => rfl
  | cons p ps ih =>
    obtain ⟨k', a⟩ := p
    rw [List.map_cons, List.nodup_cons] at h
    by_cases hk : k' = k
    · subst hk
      have hnil : ps.filter (·.1 = k') = [] := by
        refine List.filter_eq_nil_iff.mpr fun p hp => ?_
        rw [decide_eq_true_eq]
        exact fun heq => h.1 (List.mem_map.mpr ⟨p, hp, heq⟩)
      rw [List.filter_cons_of_pos (by simp), hnil]
      simp
    · rw [List.filter_cons_of_neg (by simpa using hk), ih h.2, List.lookup_cons,
        beq_false_of_ne (Ne.symm hk)]

theorem lookup_of_mem (h : (ps.map Prod.fst).Nodup) {a : α} (hmem : (k, a) ∈ ps) :
    ps.lookup k = some a := by
  have hvalue : a ∈ (ps.filter (·.1 = k)).map Prod.snd :=
    List.mem_map.mpr ⟨(k, a), List.mem_filter.mpr ⟨hmem, decide_eq_true rfl⟩, rfl⟩
  rwa [values_of_nodup h, Option.mem_toList] at hvalue

end Lookup

namespace Toml

variable {α : Type} {k : String} {a : α} {es : List (String × Entry)} {ss : List Section}
  {body : Members} {ms ms' : List (String × Node)} {path : List String} {adds : Bool}

theorem map_fst_replaceMember (k : String) (a : α) (ms : List (String × α)) :
    (replaceMember k a ms).map Prod.fst = ms.map Prod.fst := by
  induction ms with
  | nil => rfl
  | cons m ms ih =>
    rw [replaceMember]
    split
    · rename_i hkey
      simp [hkey]
    · simp [ih]

theorem nodup_closeEntries {ms : Members} (h : closeEntries es = some ms) :
    (ms.map Prod.fst).Nodup := by
  induction es generalizing ms with
  | nil =>
    rw [closeEntries] at h
    obtain rfl := Option.some.inj h
    exact List.nodup_nil
  | cons e es ih =>
    rw [closeEntries] at h
    obtain ⟨v, -, h⟩ := Option.bind_eq_some_iff.mp h
    obtain ⟨rest, hrest, h⟩ := Option.bind_eq_some_iff.mp h
    split at h
    · cases h
    · rename_i hnone
      obtain rfl := Option.some.inj h
      rw [Option.not_isSome_iff_eq_none] at hnone
      exact List.nodup_cons.mpr ⟨lookup_eq_none_iff_notMem.mp hnone, ih hrest⟩

theorem nodup_mergeMembers (h : mergeMembers ms body = some ms')
    (hms : (ms.map Prod.fst).Nodup) (hbody : (body.map Prod.fst).Nodup) :
    (ms'.map Prod.fst).Nodup := by
  rw [mergeMembers] at h
  split at h
  · cases h
  · rename_i hnone
    obtain rfl := Option.some.inj h
    rw [List.map_append, List.map_map]
    refine hms.append hbody (List.disjoint_right.mpr fun k hk => ?_)
    obtain ⟨m, hm, rfl⟩ := List.mem_map.mp hk
    refine lookup_eq_none_iff_notMem.mp (Option.not_isSome_iff_eq_none.mp fun hsome => hnone ?_)
    exact List.any_eq_true.mpr ⟨m, hm, hsome⟩

/-- A section that is put into tables adds at most one key to the outermost one. -/
theorem nodup_place (h : place adds body path ms = some ms') (hms : (ms.map Prod.fst).Nodup) :
    (ms'.map Prod.fst).Nodup := by
  match path with
  | [] => cases h
  | [k] =>
    rw [place] at h
    split at h
    · rename_i hnone
      obtain rfl := Option.some.inj h
      exact nodup_append_of_lookup_eq_none hms hnone _
    · split at h
      · cases h
      · obtain ⟨sub, -, rfl⟩ := Option.map_eq_some_iff.mp h
        rwa [map_fst_replaceMember]
    · split at h
      · obtain rfl := Option.some.inj h
        rwa [map_fst_replaceMember]
      · cases h
    · cases h
  | k :: k' :: ks =>
    rw [place] at h
    · split at h
      · rename_i hnone
        obtain ⟨sub, -, rfl⟩ := Option.map_eq_some_iff.mp h
        exact nodup_append_of_lookup_eq_none hms hnone _
      · obtain ⟨sub, -, rfl⟩ := Option.map_eq_some_iff.mp h
        rwa [map_fst_replaceMember]
      · split at h
        · cases h
        · obtain ⟨sub, -, rfl⟩ := Option.map_eq_some_iff.mp h
          rwa [map_fst_replaceMember]
      · cases h
    · exact nofun

theorem nodup_assemble (h : assemble ss ms = some ms') (hms : (ms.map Prod.fst).Nodup) :
    (ms'.map Prod.fst).Nodup := by
  induction ss generalizing ms with
  | nil =>
    rw [assemble] at h
    rwa [← Option.some.inj h]
  | cons s ss ih =>
    rw [assemble] at h
    obtain ⟨body, hbody, h⟩ := Option.bind_eq_some_iff.mp h
    split at h
    · obtain ⟨merged, hmerged, h⟩ := Option.bind_eq_some_iff.mp h
      exact ih h (nodup_mergeMembers hmerged hms (nodup_closeEntries hbody))
    · obtain ⟨placed, hplaced, h⟩ := Option.bind_eq_some_iff.mp h
      exact ih h (nodup_place hplaced hms)

theorem map_fst_closeMembers (ms : List (String × Node)) :
    (closeMembers ms).map Prod.fst = ms.map Prod.fst := by
  induction ms with
  | nil => simp [closeMembers]
  | cons m ms ih => simp [closeMembers, ih]

/-- **A document has every key once.** -/
theorem nodup_read {text : String} {ms : Members} (h : read text = some ms) :
    (ms.map Prod.fst).Nodup := by
  obtain ⟨ts, -, h⟩ := Option.bind_eq_some_iff.mp h
  obtain ⟨sections, -, h⟩ := Option.bind_eq_some_iff.mp h
  obtain ⟨members, hmembers, h⟩ := Option.bind_eq_some_iff.mp h
  obtain rfl := Option.some.inj h
  rw [map_fst_closeMembers]
  exact nodup_assemble hmembers List.nodup_nil

end Toml

end MarketFeed
