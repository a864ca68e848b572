/-!
# Tables

Finite maps from texts, kept as lists of pairs in the order in which the keys were first set.

## Main definitions

* `Table`: the maps
* `Table.find?`, `Table.insert`, `Table.erase`
* `Table.insertAll`: many keys set one after another
* `Table.Distinct`: no key stands twice
* `Table.Alike`: the same pairs in any order

## Main results

* `Table.find?_insert`, `Table.find?_erase`: the value of a key after a change
* `Table.find?_insertAll`: of many values of a key the last one counts
* `Table.distinct_insert`, `Table.distinct_erase`: changes leave the keys distinct
* `Table.find?_eq_some_iff`: with distinct keys a pair of the table is the value of its key
-/

namespace MarketFeed

/-- A finite map from texts. -/
structure Table (α : Type) where
  pairs : List (String × α)
  deriving DecidableEq

namespace Table

variable {α : Type}

/-- the map without keys -/
def empty : Table α := ⟨[]⟩

instance : Inhabited (Table α) := ⟨empty⟩

/-- the value of a key -/
def find? (t : Table α) (k : String) : Option α := (t.pairs.find? (·.1 == k)).map Prod.snd

/-- Puts a pair in place of the one with its key, or at the end. -/
def put (k : String) (a : α) : List (String × α) → List (String × α)
  | [] => [(k, a)]
  | p :: ps => if p.1 = k then (k, a) :: ps else p :: put k a ps

/-- The map with a key set to a value. -/
def insert (t : Table α) (k : String) (a : α) : Table α := ⟨put k a t.pairs⟩

/-- The map without a key. -/
def erase (t : Table α) (k : String) : Table α := ⟨t.pairs.filter (·.1 != k)⟩

/-- The map with keys set to values, one after another. -/
def insertAll (t : Table α) (ps : List (String × α)) : Table α :=
  ps.foldl (fun t p => t.insert p.1 p.2) t

/-- the keys -/
def keys (t : Table α) : List String := t.pairs.map Prod.fst

/-- the values -/
def values (t : Table α) : List α := t.pairs.map Prod.snd

/-- the number of keys -/
def size (t : Table α) : Nat := t.pairs.length

/-- The map has no keys. -/
def isEmpty (t : Table α) : Bool := t.pairs.isEmpty

theorem eq_empty_of_isEmpty {t : Table α} (h : t.isEmpty) : t = empty := by
  obtain ⟨ps⟩ := t
  simpa [isEmpty, empty] using h

@[simp] theorem find?_empty (k : String) : (empty : Table α).find? k = none := rfl

theorem find?_put (k k' : String) (a : α) (ps : List (String × α)) :
    (put k a ps).find? (·.1 == k') =
      if k = k' then some (k, a) else ps.find? (·.1 == k') := by
  induction ps with
  | nil => by_cases hk : k = k' <;> simp [put, hk]
  | cons p ps ih =>
    by_cases hp : p.1 = k
    · by_cases hk : k = k' <;> simp [put, hp, hk]
    · by_cases hk : k = k'
      · subst hk
        simp [put, hp, ih]
      · simp [put, hp, hk, ih, List.find?_cons]

/-- A key that has been set has its value; the others keep theirs. -/
theorem find?_insert (t : Table α) (k k' : String) (a : α) :
    (t.insert k a).find? k' = if k = k' then some a else t.find? k' := by
  simp only [find?, insert, find?_put]
  split <;> rfl

/-- A key that has been taken out has no value; the others keep theirs. -/
theorem find?_erase (t : Table α) (k k' : String) :
    (t.erase k).find? k' = if k = k' then none else t.find? k' := by
  simp only [find?, erase, List.find?_filter]
  by_cases hk : k = k'
  · subst hk
    simp
  · have same : (fun p : String × α => decide (p.1 ≠ k ∧ p.1 = k')) = fun p => p.1 == k' := by
      funext p
      by_cases hp : p.1 = k' <;> simp [hp, Ne.symm hk]
    simp_all [bne, Bool.beq_eq_decide_eq]

/-! ## Many changes -/

theorem insertAll_cons (t : Table α) (p : String × α) (ps : List (String × α)) :
    t.insertAll (p :: ps) = (t.insert p.1 p.2).insertAll ps := rfl

/-- Of many values that a key is set to, the last one counts. -/
theorem find?_insertAll (t : Table α) (ps : List (String × α)) (k : String) :
    (t.insertAll ps).find? k =
      ((ps.filter (·.1 = k)).getLast?.map Prod.snd).or (t.find? k) := by
  induction ps generalizing t with
  | nil => rfl
  | cons p ps ih =>
    rw [insertAll_cons, ih, find?_insert]
    by_cases hk : p.1 = k
    · rw [if_pos hk, List.filter_cons_of_pos (by simpa using hk), List.getLast?_cons]
      cases (ps.filter (·.1 = k)).getLast? <;> rfl
    · rw [if_neg hk, List.filter_cons_of_neg (by simpa using hk)]

/-! ## Order -/

/-- Two tables have the same pairs, in whatever order, and the same values of all keys. -/
structure Alike (t t' : Table α) : Prop where
  perm : t.pairs.Perm t'.pairs
  find?_eq : ∀ k, t.find? k = t'.find? k

theorem Alike.refl (t : Table α) : t.Alike t := ⟨.refl _, fun _ => rfl⟩

/-! ## Distinct keys -/

/-- No key stands twice. -/
def Distinct (t : Table α) : Prop := t.keys.Nodup

theorem distinct_empty : (empty : Table α).Distinct := List.nodup_nil

theorem mem_keys_put {k k' : String} {a : α} {ps : List (String × α)}
    (h : k' ∈ (put k a ps).map Prod.fst) : k' = k ∨ k' ∈ ps.map Prod.fst := by
  induction ps with
  | nil => simpa [put] using h
  | cons p ps ih =>
    by_cases hp : p.1 = k
    · simp only [put, if_pos hp, List.map_cons, List.mem_cons] at h ⊢
      exact h.imp_right Or.inr
    · simp only [put, if_neg hp, List.map_cons, List.mem_cons] at h ⊢
      rcases h with h | h
      · exact Or.inr (Or.inl h)
      · exact (ih h).imp_right Or.inr

theorem distinct_insert {t : Table α} (h : t.Distinct) (k : String) (a : α) :
    (t.insert k a).Distinct := by
  obtain ⟨ps⟩ := t
  change ((put k a ps).map Prod.fst).Nodup
  replace h : (ps.map Prod.fst).Nodup := h
  induction ps with
  | nil => simp [put]
  | cons p ps ih =>
    rw [List.map_cons, List.nodup_cons] at h
    by_cases hp : p.1 = k
    · rw [put, if_pos hp, List.map_cons, List.nodup_cons]
      exact ⟨hp ▸ h.1, h.2⟩
    · rw [put, if_neg hp, List.map_cons, List.nodup_cons]
      refine ⟨fun hmem => ?_, ih h.2⟩
      exact (mem_keys_put hmem).elim hp h.1

theorem distinct_insertAll {t : Table α} (h : t.Distinct) (ps : List (String × α)) :
    (t.insertAll ps).Distinct := by
  induction ps generalizing t with
  | nil => exact h
  | cons p ps ih => exact ih (distinct_insert h p.1 p.2)

theorem distinct_erase {t : Table α} (h : t.Distinct) (k : String) : (t.erase k).Distinct :=
  h.sublist ((List.filter_sublist).map Prod.fst)

/-- The keys are those with a value. -/
theorem mem_keys_iff {t : Table α} {k : String} : k ∈ t.keys ↔ (t.find? k).isSome := by
  simp [keys, find?, List.find?_isSome]

/-- With distinct keys a pair of the table is the value of its key. -/
theorem find?_eq_some_iff {t : Table α} (h : t.Distinct) {k : String} {a : α} :
    t.find? k = some a ↔ (k, a) ∈ t.pairs := by
  obtain ⟨ps⟩ := t
  replace h : (ps.map Prod.fst).Nodup := h
  induction ps with
  | nil => simp [find?]
  | cons p ps ih =>
    rw [List.map_cons, List.nodup_cons] at h
    by_cases hp : p.1 = k
    · have hnot : (k, a) ∉ ps := fun hmem => h.1 (hp ▸ List.mem_map_of_mem hmem)
      obtain ⟨k', a'⟩ := p
      simp only at hp
      subst hp
      simp [find?, hnot, eq_comm]
    · have hne : (k, a) ≠ p := fun e => hp (e ▸ rfl)
      simpa [find?, List.find?_cons, hp, hne] using ih h.2

end Table

end MarketFeed
