import MarketFeed.Book.Orders
import MarketFeed.Proofs.Book.Ladder

/-!
# The resting orders of a side

Every operation on the orders of a side is told by what it does to the orders at each price value,
and an event does at most one of three things: nothing, setting one order, taking one out.

## Main definitions

* `Orders.levelAt`, `Orders.sizeAt`: the orders at a price value, and the size of one of them
* `Orders.WellFormed`: one level for each price value, one size for each order of a level
* `Orders.IsRowOf`: a row tells the size of a rung

## Main results

* `Orders.sizeAt_set`, `Orders.sizeAt_remove`: the sizes after a change
* `Orders.apply_cases`: what an event can do to a side
* `Orders.WellFormed.apply`: events keep a side well formed
* `Orders.rows_eq_ok_iff`: a snapshot is answered with one row for each rung
* `Orders.exists_rung_ofList_iff`: the prices of a snapshot are those of its rows
-/

namespace MarketFeed.Orders

variable {o o' : Orders} {p : Decimal} {q : ℚ} {id : String}

/-- the orders at a price value -/
def levelAt (o : Orders) (q : ℚ) : Table Decimal := (o.rungAt q).getD .empty

/-- the size of an order at a price value -/
def sizeAt (o : Orders) (q : ℚ) (id : String) : Option Decimal := (o.levelAt q).find? id

theorem level_eq_levelAt (o : Orders) (p : Decimal) : o.level p = o.levelAt p.toRat := by
  rw [level, levelAt, Ladder.find?_eq_rungAt]

theorem size?_eq_sizeAt (o : Orders) (p : Decimal) (id : String) :
    o.size? p id = o.sizeAt p.toRat id := by
  rw [size?, sizeAt, level_eq_levelAt]

theorem amount_eq_sum_levelAt (o : Orders) (p : Decimal) :
    o.amount p = Decimal.sum (o.levelAt p.toRat).values := by
  rw [amount, level_eq_levelAt]

/-! ## Single changes -/

theorem levelAt_set (o : Orders) (p : Decimal) (id : String) (size : Decimal) (q : ℚ) :
    (o.set p id size).levelAt q =
      if p.toRat = q then (o.levelAt q).insert id size else o.levelAt q := by
  rw [levelAt, set, Ladder.rungAt_insert, level_eq_levelAt]
  split_ifs with hq
  · rw [Option.getD_some, hq]
  · rfl

theorem sizeAt_set (o : Orders) (p : Decimal) (id : String) (size : Decimal) (q : ℚ)
    (id' : String) : (o.set p id size).sizeAt q id' =
      if p.toRat = q ∧ id = id' then some size else o.sizeAt q id' := by
  rw [sizeAt, levelAt_set]
  by_cases hq : p.toRat = q
  · simp [hq, Table.find?_insert, sizeAt]
  · simp [hq, sizeAt]

/-- To give up a level without orders is no different from keeping it empty. -/
theorem levelAt_remove (o : Orders) (p : Decimal) (id : String) (q : ℚ) :
    (o.remove p id).levelAt q =
      if p.toRat = q then (o.levelAt q).erase id else o.levelAt q := by
  by_cases hempty : ((o.level p).erase id).isEmpty
  · rw [remove, if_pos hempty, levelAt, Ladder.rungAt_erase]
    split_ifs with hq
    · rw [Option.getD_none, ← hq, ← level_eq_levelAt, Table.eq_empty_of_isEmpty hempty]
    · rfl
  · rw [remove, if_neg hempty, levelAt, Ladder.rungAt_insert]
    split_ifs with hq
    · rw [Option.getD_some, ← hq, level_eq_levelAt]
    · rfl

theorem sizeAt_remove (o : Orders) (p : Decimal) (id : String) (q : ℚ) (id' : String) :
    (o.remove p id).sizeAt q id' =
      if p.toRat = q ∧ id = id' then none else o.sizeAt q id' := by
  rw [sizeAt, levelAt_remove]
  by_cases hq : p.toRat = q
  · simp [hq, Table.find?_erase, sizeAt]
  · simp [hq, sizeAt]

/-! ## Well-formed sides -/

/-- There is one level for each price value, and one size for each order of a level. -/
structure WellFormed (o : Orders) : Prop where
  ascending : o.Ascending
  distinct : ∀ r ∈ o.rungs, r.2.Distinct

namespace WellFormed

theorem empty : WellFormed Ladder.empty :=
  ⟨Ladder.Ascending.empty, fun _ h => absurd h List.not_mem_nil⟩

theorem levelAt (h : o.WellFormed) (q : ℚ) : (o.levelAt q).Distinct := by
  cases hr : o.rungAt q with
  | none =>
    rw [Orders.levelAt, hr]
    exact Table.distinct_empty
  | some t =>
    obtain ⟨p, hmem, -⟩ := Ladder.mem_rungs_of_rungAt hr
    rw [Orders.levelAt, hr]
    exact h.distinct _ hmem

theorem levelAt_rung (h : o.WellFormed) {r : Decimal × Table Decimal} (hr : r ∈ o.rungs) :
    o.levelAt r.1.toRat = r.2 := by
  rw [Orders.levelAt, h.ascending.rungAt_eq_some_iff.mpr ⟨r.1, hr, rfl⟩, Option.getD_some]

theorem insert (h : o.WellFormed) (p : Decimal) {t : Table Decimal} (ht : t.Distinct) :
    WellFormed (Ladder.insert o p t) := by
  refine ⟨h.ascending.insert p t, fun r hr => ?_⟩
  have hat := (h.ascending.insert p t).rungAt_eq_some_iff.mpr ⟨r.1, hr, rfl⟩
  rw [Ladder.rungAt_insert] at hat
  split_ifs at hat with hq
  · exact Option.some.inj hat ▸ ht
  · obtain ⟨p', hmem, -⟩ := Ladder.mem_rungs_of_rungAt hat
    exact h.distinct (p', r.2) hmem

theorem set (h : o.WellFormed) (p : Decimal) (id : String) (size : Decimal) :
    (o.set p id size).WellFormed := by
  refine h.insert p (Table.distinct_insert ?_ id size)
  rw [level_eq_levelAt]
  exact h.levelAt _

theorem remove (h : o.WellFormed) (p : Decimal) (id : String) : (o.remove p id).WellFormed := by
  simp only [Orders.remove]
  split_ifs
  · exact ⟨h.ascending.erase p, fun r hr => h.distinct r (List.mem_of_mem_filter hr)⟩
  · refine h.insert p (Table.distinct_erase ?_ id)
    rw [level_eq_levelAt]
    exact h.levelAt _

end WellFormed

/-! ## Events -/

/-- An event does nothing, or it sets or takes out one order at the price that it touches. -/
theorem apply_cases {e : Event} {touched : Option Decimal} (h : o.apply e = .ok (o', touched)) :
    (o' = o ∧ touched = none) ∨
      ∃ p id, touched = some p ∧ ((∃ size, o' = o.set p id size) ∨ o' = o.remove p id) := by
  cases e with
  | opened id price remaining =>
    cases h
    exact .inr ⟨price, id, rfl, .inl ⟨remaining, rfl⟩⟩
  | closed id price remaining reason =>
    simp only [apply] at h
    split at h <;> cases h
    · exact .inr ⟨price, id, rfl, .inr rfl⟩
    · exact .inl ⟨rfl, rfl⟩
  | resized id price old new =>
    rcases price with _ | price
    · cases h
      exact .inl ⟨rfl, rfl⟩
    rcases new with _ | new
    · cases h
      exact .inl ⟨rfl, rfl⟩
    simp only [apply] at h
    split at h <;> cases h
    · exact .inr ⟨price, id, rfl, .inl ⟨new, rfl⟩⟩
    · exact .inl ⟨rfl, rfl⟩
  | traded trade id taker price traded =>
    simp only [apply] at h
    split at h
    · obtain ⟨rest, -, hrest⟩ := bind_eq_ok_iff.mp h
      cases hrest
      exact .inr ⟨price, id, rfl, .inl ⟨_, rfl⟩⟩
    · cases h
      exact .inl ⟨rfl, rfl⟩

/-- An event leaves the orders at all prices but the one that it touches. -/
theorem levelAt_apply_of_ne {e : Event} {touched : Option Decimal}
    (h : o.apply e = .ok (o', touched)) (hq : ∀ p ∈ touched, p.toRat ≠ q) :
    o'.levelAt q = o.levelAt q := by
  rcases apply_cases h with ⟨rfl, -⟩ | ⟨p, id, rfl, ⟨size, rfl⟩ | rfl⟩
  · rfl
  · rw [levelAt_set, if_neg (hq p rfl)]
  · rw [levelAt_remove, if_neg (hq p rfl)]

theorem WellFormed.apply {e : Event} {touched : Option Decimal} (ho : o.WellFormed)
    (h : o.apply e = .ok (o', touched)) : o'.WellFormed := by
  rcases apply_cases h with ⟨rfl, -⟩ | ⟨p, id, -, ⟨size, rfl⟩ | rfl⟩
  · exact ho
  · exact ho.set p id size
  · exact ho.remove p id

/-! ## Snapshots -/

/-- The orders of a snapshot, one row after another, on top of others. -/
theorem WellFormed.foldl_set (ho : o.WellFormed) (rows : List RestingOrder) :
    WellFormed (rows.foldl (fun o r => o.set r.price r.orderId r.size) o) := by
  induction rows generalizing o with
  | nil => exact ho
  | cons r rows ih => exact ih (ho.set r.price r.orderId r.size)

theorem WellFormed.ofList (rows : List RestingOrder) : (Orders.ofList rows).WellFormed :=
  WellFormed.empty.foldl_set rows

theorem exists_rung_iff : (∃ r ∈ o.rungs, r.1.toRat = q) ↔ o.rungAt q ≠ none := by
  rw [ne_eq, Ladder.rungAt_eq_none_iff]
  push Not
  rfl

/-- The prices of a snapshot are those of its rows. -/
theorem exists_rung_ofList_iff (rows : List RestingOrder) (q : ℚ) :
    (∃ r ∈ (Orders.ofList rows).rungs, r.1.toRat = q) ↔ ∃ r ∈ rows, r.price.toRat = q := by
  have hfold : ∀ o : Orders,
      (rows.foldl (fun o r => o.set r.price r.orderId r.size) o).rungAt q ≠ none ↔
        o.rungAt q ≠ none ∨ ∃ r ∈ rows, r.price.toRat = q := by
    induction rows with
    | nil => simp
    | cons r rows ih =>
      intro o
      rw [List.foldl_cons, ih, set, Ladder.rungAt_insert]
      by_cases hq : r.price.toRat = q <;> simp [hq]
  rw [exists_rung_iff, ofList, hfold]
  simp

/-- A row of an update tells the price and the size of a rung. -/
structure IsRowOf (updateId : ℕ) (r : Decimal × Table Decimal) (row : Row) : Prop where
  price : row.price = r.1
  amount : Decimal.sum r.2.values = .ok row.amount
  updateId : row.updateId = updateId

/-- Rungs have rows if all their sizes can be summed up, one row for each, in their order. -/
theorem rows_eq_ok_iff {updateId : ℕ} {rungs : List (Decimal × Table Decimal)} {rows : List Row} :
    Orders.rows updateId rungs = .ok rows ↔ List.Forall₂ (IsRowOf updateId) rungs rows := by
  induction rungs generalizing rows with
  | nil =>
    rw [List.forall₂_nil_left_iff]
    exact ⟨fun h => (Except.ok.inj h).symm, fun h => h ▸ rfl⟩
  | cons r rungs ih =>
    rw [Orders.rows, List.mapM_cons, bind_eq_ok_iff, List.forall₂_cons_left_iff]
    constructor
    · rintro ⟨row, hrow, hrest⟩
      obtain ⟨amount, hamount, hrow⟩ := bind_eq_ok_iff.mp hrow
      obtain ⟨rows', hrows', hrest⟩ := bind_eq_ok_iff.mp hrest
      cases hrow
      cases hrest
      exact ⟨_, rows', ⟨rfl, hamount, rfl⟩, ih.mp hrows', rfl⟩
    · rintro ⟨row, rows', ⟨hprice, hamount, hid⟩, hrows', rfl⟩
      refine ⟨row, bind_eq_ok_iff.mpr ⟨row.amount, hamount, ?_⟩,
        bind_eq_ok_iff.mpr ⟨rows', ih.mpr hrows', rfl⟩⟩
      rw [← hprice, ← hid]
      rfl

theorem prices_of_isRowOf {updateId : ℕ} {rungs : List (Decimal × Table Decimal)}
    {rows : List Row} (h : List.Forall₂ (IsRowOf updateId) rungs rows) :
    rows.map Row.price = rungs.map Prod.fst := by
  induction h with
  | nil => rfl
  | cons hrow _ ih => rw [List.map_cons, List.map_cons, hrow.price, ih]

theorem exists_rung_of_mem_rows {updateId : ℕ} {rungs : List (Decimal × Table Decimal)}
    {rows : List Row} (h : List.Forall₂ (IsRowOf updateId) rungs rows) {row : Row}
    (hrow : row ∈ rows) : ∃ r ∈ rungs, IsRowOf updateId r row := by
  induction h with
  | nil => cases hrow
  | cons hhead _ ih =>
    rcases List.mem_cons.mp hrow with rfl | hrow
    · exact ⟨_, List.mem_cons_self, hhead⟩
    · obtain ⟨r, hr, h⟩ := ih hrow
      exact ⟨r, List.mem_cons_of_mem _ hr, h⟩

end MarketFeed.Orders
