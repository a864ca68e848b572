import Mathlib.Data.List.Induction
import Mathlib.Data.List.Perm.Lattice
import MarketFeed.Decimal.Overflow
import MarketFeed.Json.Decode

/-!
# Members of an object

Settling the members of an object puts their keys in order and keeps the last value of each. What
is looked up does not change by it, and members that agree on some keys have the same settled
members there. A check of the settled members passes over all keys that are no field, so only the
last values of the fields matter to it, in the order of their keys.

## Main definitions

* `Ordered`: the keys stand in order, none twice
* `checkMember`, `checkEach`: what a check makes of a single member, and of each of some

## Main results

* `lookup?_settled`: settling keeps the last value of every key
* `filter_settled_congr`: settled members are determined by what is looked up
* `checkMembers_ofMembers`: a check of members with distinct keys is a check of each by itself
* `slots_ofMembers`: a field is looked up as its key is
-/

namespace MarketFeed.Json

variable {α : Type} {k k' : String} {v : α} {ms ms' : List (String × α)}

/-! ## Looking up -/

@[simp] theorem lookup?_nil (k : String) : lookup? k ([] : List (String × α)) = none := rfl

/-- A later value of a key stands before an earlier one. -/
theorem lookup?_cons (k k' : String) (v : α) (ms : List (String × α)) :
    lookup? k ((k', v) :: ms) =
      (lookup? k ms).or (if k' = k then some v else none) := by
  simp only [lookup?, List.reverse_cons, List.find?_append]
  cases ms.reverse.find? (fun m => m.1 == k) with
  | some m => rfl
  | none => by_cases h : k' = k <;> simp [h]

theorem lookup?_append_singleton (k k' : String) (v : α) (ms : List (String × α)) :
    lookup? k (ms ++ [(k', v)]) = if k' = k then some v else lookup? k ms := by
  by_cases h : k' = k <;> simp [lookup?, h]

theorem lookup?_map {β : Type} (f : α → β) (k : String) (ms : List (String × α)) :
    lookup? k (ms.map fun m => (m.1, f m.2)) = (lookup? k ms).map f := by
  rw [lookup?, lookup?, ← List.map_reverse, List.find?_map, Option.map_map, Option.map_map]
  rfl

theorem lookup?_eq_none (h : ∀ m ∈ ms, m.1 ≠ k) : lookup? k ms = none := by
  have hfind : ms.reverse.find? (fun m => m.1 == k) = none :=
    List.find?_eq_none.mpr fun m hm => by simpa using h m (List.mem_reverse.mp hm)
  rw [lookup?, hfind, Option.map_none]

/-! ## Order -/

/-- The keys stand in order, and none of them twice. -/
def Ordered (ms : List (String × α)) : Prop := ms.Pairwise fun m m' => m.1 < m'.1

theorem Ordered.nodup (h : Ordered ms) : ms.Nodup := by
  refine List.Pairwise.imp (fun {m m'} hlt heq => ?_) h
  subst heq
  exact String.lt_irrefl _ hlt

theorem Ordered.nodup_keys (h : Ordered ms) : (ms.map Prod.fst).Nodup :=
  List.pairwise_map.mpr (h.imp fun hlt => String.ne_of_lt hlt)

theorem Ordered.tail (h : Ordered ((k, v) :: ms)) : Ordered ms := (List.pairwise_cons.mp h).2

theorem Ordered.head_ne (h : Ordered ((k, v) :: ms)) : ∀ m ∈ ms, m.1 ≠ k := by
  rintro m hm rfl
  exact String.lt_irrefl _ ((List.pairwise_cons.mp h).1 m hm)

/-- With ordered keys there is no later value of a key. -/
theorem Ordered.lookup?_cons (h : Ordered ((k', v) :: ms)) (k : String) :
    lookup? k ((k', v) :: ms) = if k' = k then some v else lookup? k ms := by
  rw [Json.lookup?_cons]
  by_cases hk : k' = k
  · subst hk
    rw [lookup?_eq_none h.head_ne, Option.none_or]
  · rw [if_neg hk, if_neg hk, Option.or_none]

theorem Ordered.lookup?_eq_some_iff (h : Ordered ms) : lookup? k ms = some v ↔ (k, v) ∈ ms := by
  induction ms with
  | nil => simp
  | cons m ms ih =>
    obtain ⟨k', v'⟩ := m
    rw [h.lookup?_cons, List.mem_cons]
    by_cases hk : k' = k
    · subst hk
      have hnot : (k', v) ∉ ms := fun hm => h.head_ne _ hm rfl
      simp [hnot, eq_comm]
    · simp [hk, Ne.symm hk, ih h.tail]

/-- Ordered members that look up the same are the same. -/
theorem Ordered.eq_of_lookup? (h : Ordered ms) (h' : Ordered ms')
    (hsame : ∀ k, lookup? k ms = lookup? k ms') : ms = ms' := by
  refine List.Perm.eq_of_pairwise (fun m m' _ _ hlt hgt => ?_) h h' ?_
  · exact absurd hgt (String.lt_asymm hlt)
  · refine (List.perm_ext_iff_of_nodup h.nodup h'.nodup).mpr fun m => ?_
    rw [← h.lookup?_eq_some_iff, ← h'.lookup?_eq_some_iff, hsame]

/-! ## Settling -/

theorem mem_insertMember {m : String × α} (h : m ∈ insertMember k v ms) :
    m = (k, v) ∨ m ∈ ms := by
  induction ms with
  | nil => exact .inl (List.mem_singleton.mp h)
  | cons m' ms ih =>
    obtain ⟨k', v'⟩ := m'
    rw [insertMember] at h
    split at h
    · exact List.mem_cons.mp h
    · split at h
      · exact (List.mem_cons.mp h).imp_right (List.mem_cons_of_mem _)
      · rcases List.mem_cons.mp h with rfl | h
        · exact .inr List.mem_cons_self
        · exact (ih h).imp_right (List.mem_cons_of_mem _)

theorem Ordered.insertMember (h : Ordered ms) (k : String) (v : α) :
    Ordered (insertMember k v ms) := by
  induction ms with
  | nil => exact List.pairwise_singleton _ _
  | cons m' ms ih =>
    obtain ⟨k', v'⟩ := m'
    obtain ⟨hfirst, hrest⟩ := List.pairwise_cons.mp h
    rw [Json.insertMember]
    split
    case isTrue hlt =>
      refine List.pairwise_cons.mpr ⟨fun m hm => ?_, h⟩
      rcases List.mem_cons.mp hm with rfl | hm
      · exact hlt
      · exact String.lt_trans hlt (hfirst m hm)
    case isFalse hnot =>
      split
      case isTrue heq =>
        subst heq
        exact List.pairwise_cons.mpr ⟨hfirst, hrest⟩
      case isFalse hne =>
        refine List.pairwise_cons.mpr ⟨fun m hm => ?_, ih hrest⟩
        rcases mem_insertMember hm with rfl | hm
        · refine Decidable.not_not.mp fun hnot' => hne ?_
          exact String.le_antisymm (String.not_lt.mp hnot') (String.not_lt.mp hnot)
        · exact hfirst m hm

/-- A member that is put in has its value; the others keep theirs. -/
theorem Ordered.lookup?_insertMember (h : Ordered ms) (k k' : String) (v : α) :
    lookup? k (Json.insertMember k' v ms) = if k' = k then some v else lookup? k ms := by
  have hput := h.insertMember k' v
  induction ms with
  | nil => exact hput.lookup?_cons k
  | cons m ms ih =>
    obtain ⟨k₁, v₁⟩ := m
    rw [Json.insertMember] at hput ⊢
    by_cases hlt : k' < k₁
    · rw [if_pos hlt] at hput ⊢
      exact hput.lookup?_cons k
    · rw [if_neg hlt] at hput ⊢
      by_cases heq : k' = k₁
      · subst heq
        rw [if_pos rfl] at hput ⊢
        rw [hput.lookup?_cons, h.lookup?_cons]
        split <;> rfl
      · rw [if_neg heq] at hput ⊢
        rw [hput.lookup?_cons, h.lookup?_cons, ih h.tail hput.tail]
        by_cases hk : k' = k
        · subst hk
          rw [if_neg (Ne.symm heq), if_pos rfl, if_pos rfl]
        · rw [if_neg hk, if_neg hk]

theorem settled_append_singleton (ms : List (String × α)) (k : String) (v : α) :
    settled (ms ++ [(k, v)]) = insertMember k v (settled ms) := by
  simp [settled]

theorem mem_of_mem_settled {m : String × α} (h : m ∈ settled ms) : m ∈ ms := by
  induction ms using List.reverseRecOn with
  | nil => exact h
  | append_singleton ms m' ih =>
    rw [settled_append_singleton] at h
    rcases mem_insertMember h with rfl | h
    · exact List.mem_append_right _ List.mem_cons_self
    · exact List.mem_append_left _ (ih h)

theorem ordered_settled (ms : List (String × α)) : Ordered (settled ms) := by
  induction ms using List.reverseRecOn with
  | nil => exact .nil
  | append_singleton ms m ih =>
    rw [settled_append_singleton]
    exact ih.insertMember _ _

/-- **Settling keeps the last value of every key.** -/
@[simp] theorem lookup?_settled (k : String) (ms : List (String × α)) :
    lookup? k (settled ms) = lookup? k ms := by
  induction ms using List.reverseRecOn with
  | nil => rfl
  | append_singleton ms m ih =>
    rw [settled_append_singleton, (ordered_settled ms).lookup?_insertMember,
      lookup?_append_singleton, ih]

theorem lookup?_filter (p : String → Bool) (k : String) (ms : List (String × α)) :
    lookup? k (ms.filter fun m => p m.1) = if p k then lookup? k ms else none := by
  induction ms with
  | nil => simp
  | cons m ms ih =>
    obtain ⟨k', v⟩ := m
    by_cases hk : k' = k
    · subst hk
      by_cases hp : p k' <;> simp [hp, lookup?_cons, ih]
    · by_cases hp : p k' <;> simp [hp, hk, lookup?_cons, ih]

/-- **Members that look up the same on some keys are settled in the same way there.** -/
theorem filter_settled_congr {p : String → Bool}
    (h : ∀ k, p k → lookup? k ms = lookup? k ms') :
    (settled ms).filter (fun m => p m.1) = (settled ms').filter (fun m => p m.1) := by
  refine Ordered.eq_of_lookup? ((ordered_settled ms).filter _) ((ordered_settled ms').filter _) ?_
  intro k
  rw [lookup?_filter, lookup?_filter, lookup?_settled, lookup?_settled]
  by_cases hp : p k
  · rw [if_pos hp, if_pos hp, h k hp]
  · rw [if_neg hp, if_neg hp]

/-! ## Drafts of values -/

mutual

theorem skip_ofJson : ∀ v : Json, (Draft.ofJson v).skip = .ok ()
  | .null | .bool _ | .integer _ | .real _ | .string _ => rfl
  | .array vs => by
    rw [Draft.ofJson, Draft.skip, skipItems_ofItems vs]
    rfl
  | .object ms => by
    rw [Draft.ofJson, Draft.skip, skipMembers_ofMembers ms]
    rfl

theorem skipItems_ofItems : ∀ vs : List Json, Draft.skipItems (Draft.ofItems vs) = .ok ()
  | [] => rfl
  | v :: vs => by
    rw [Draft.ofItems, Draft.skipItems, skip_ofJson v]
    exact skipItems_ofItems vs

theorem skipMembers_ofMembers :
    ∀ ms : List (String × Json), Draft.skipMembers (Draft.ofMembers ms) = .ok ()
  | [] => rfl
  | (k, v) :: ms => by
    rw [Draft.ofMembers, Draft.skipMembers, skip_ofJson v]
    exact skipMembers_ofMembers ms

end

/-! ## Checking -/

/-- What a check of some fields makes of a single member: one that is no field is passed over. -/
def checkMember (fields : List Field) (m : String × Json) : Except DecodeFault Unit :=
  match fields.find? (fun f => f.name == m.1) with
  | none => .ok ()
  | some f => f.check (Draft.ofJson m.2)

/-- A check of some members, each by itself. -/
def checkEach (fields : List Field) : List (String × Json) → Except DecodeFault Unit
  | [] => .ok ()
  | m :: ms => do
    checkMember fields m
    checkEach fields ms

/-- The name of one of some fields. -/
def isField (fields : List Field) (k : String) : Bool :=
  (fields.find? (fun f => f.name == k)).isSome

/-- Members with distinct keys are checked each by itself: a key is never met again. -/
theorem checkMembers_ofMembers {fields : List Field} {ms : List (String × Json)}
    (h : (ms.map Prod.fst).Nodup) {seen : List String} (hseen : ∀ m ∈ ms, m.1 ∉ seen) :
    checkMembers fields seen (Draft.ofMembers ms) = checkEach fields ms := by
  induction ms generalizing seen with
  | nil => rfl
  | cons m ms ih =>
    obtain ⟨k, v⟩ := m
    obtain ⟨hfirst, hdistinct⟩ := List.nodup_cons.mp h
    have hrest : checkMembers fields (k :: seen) (Draft.ofMembers ms) = checkEach fields ms :=
      ih hdistinct fun m hm => by
        rw [List.mem_cons, not_or]
        exact ⟨fun hk => hfirst (List.mem_map.mpr ⟨m, hm, hk⟩),
          hseen m (List.mem_cons_of_mem _ hm)⟩
    have hnew : seen.contains k = false := by simpa using hseen _ List.mem_cons_self
    rw [Draft.ofMembers, checkMembers, checkEach, ← hrest, checkMember]
    simp only [Draft.key, wellFormed, Except.mapError, bind, Except.bind]
    cases fields.find? (fun f => f.name == k) with
    | none => simp only [skip_ofJson]
    | some f => simp only [hnew, Bool.false_eq_true, if_false]

/-- **Only the fields are checked.** -/
theorem checkEach_filter (fields : List Field) (ms : List (String × Json)) :
    checkEach fields (ms.filter fun m => isField fields m.1) = checkEach fields ms := by
  induction ms with
  | nil => rfl
  | cons m ms ih =>
    rw [List.filter_cons]
    cases hfind : fields.find? (fun f => f.name == m.1) with
    | none =>
      have hpass : checkMember fields m = .ok () := by rw [checkMember, hfind]
      rw [if_neg (by simp [isField, hfind]), checkEach, hpass]
      exact ih
    | some f => rw [if_pos (by simp [isField, hfind]), checkEach, checkEach, ih]

/-- A check of settled members depends on the last values of the fields alone. -/
theorem checkMembers_settled_congr (fields : List Field) {ms ms' : List (String × Json)}
    (h : ∀ f ∈ fields, lookup? f.name ms = lookup? f.name ms') :
    checkMembers fields [] (Draft.ofMembers (settled ms)) =
      checkMembers fields [] (Draft.ofMembers (settled ms')) := by
  rw [checkMembers_ofMembers (ordered_settled ms).nodup_keys (by simp),
    checkMembers_ofMembers (ordered_settled ms').nodup_keys (by simp), ← checkEach_filter,
    ← checkEach_filter fields (settled ms')]
  refine congrArg (checkEach fields) (filter_settled_congr fun k hk => ?_)
  obtain ⟨f, hf⟩ := Option.isSome_iff_exists.mp hk
  have hname : f.name = k := by simpa using List.find?_some hf
  exact hname ▸ h f (List.mem_of_find?_eq_some hf)

/-- A field of ordered members is looked up as its key is. -/
theorem slots_ofMembers {ms : List (String × Json)} (h : Ordered ms) (name : String) :
    Slots.ofMembers (Draft.ofMembers ms) name = (lookup? name ms).map Draft.ofJson := by
  induction ms with
  | nil => rfl
  | cons m ms ih =>
    obtain ⟨k, v⟩ := m
    rw [h.lookup?_cons, Draft.ofMembers, Slots.ofMembers, List.find?_cons]
    by_cases hk : k = name
    · simp [hk]
    · have hne : (k == name) = false := by simpa using hk
      rw [if_neg hk, ← ih h.tail]
      simp only [hne]
      rfl

/-- The settled members pass a check in which every field that is there is what it should be. -/
theorem checkMembers_settled_eq_ok {fields : List Field} {ms : List (String × Json)}
    (h : ∀ f ∈ fields, ∀ v, lookup? f.name ms = some v → f.check (Draft.ofJson v) = .ok ()) :
    checkMembers fields [] (Draft.ofMembers (settled ms)) = .ok () := by
  rw [checkMembers_ofMembers (ordered_settled ms).nodup_keys (by simp)]
  have hmem : ∀ m ∈ settled ms, lookup? m.1 ms = some m.2 := fun m hm =>
    lookup?_settled m.1 ms ▸ (ordered_settled ms).lookup?_eq_some_iff.mpr hm
  revert hmem
  induction settled ms with
  | nil => exact fun _ => rfl
  | cons m l ih =>
    intro hmem
    have hpass : checkMember fields m = .ok () := by
      unfold checkMember
      cases hfind : fields.find? (fun f => f.name == m.1) with
      | none => rfl
      | some f =>
        have hname : f.name = m.1 := by simpa using List.find?_some hfind
        refine h f (List.mem_of_find?_eq_some hfind) m.2 ?_
        rw [hname]
        exact hmem m List.mem_cons_self
    rw [checkEach, hpass]
    exact ih fun m' hm' => hmem m' (List.mem_cons_of_mem _ hm')

end MarketFeed.Json
