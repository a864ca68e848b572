import Mathlib.Data.Finmap
import MarketFeed.Proofs.Book.Arrangement

/-!
# Resting orders as one finite map

An index of orders is a map of maps: by side, by price, by id. Flattened it is one finite map from
side, price value and id to the value of a size. Setting and taking out an order are the insertion
and the deletion of its key there, and the number of orders and the total size at a price are
those of the map.

## Main definitions

* `FlatOrders`: finite maps from side, price value and id to size
* `FlatOrders.total`: the total size at a price value
* `OrderIndex.flat`: the flat map of an index
* `OrderIndex.Alike`: the same orders on both sides, listed in any order

## Main results

* `OrderIndex.lookup_flat`, `OrderIndex.total_flat`, `OrderIndex.card_keys_flat`: what an index
  holds is what its flat map holds
* `OrderIndex.flat_set`, `OrderIndex.flat_remove`: changes are insertions and deletions
* `OrderIndex.flat_ofSnapshot`: the orders of a snapshot are its rows, inserted in their order
-/

namespace MarketFeed

/-- What tells resting orders apart. -/
structure OrderKey where
  side : Side
  price : ℚ
  orderId : String
  deriving DecidableEq

/-- the entry of an order of a side in a flat map -/
def RestingOrder.entry (side : Side) (r : RestingOrder) : Σ _ : OrderKey, ℚ :=
  ⟨⟨side, r.price.toRat, r.orderId⟩, r.size.toRat⟩

/-- the rows of a snapshot as entries of a flat map -/
def Snapshot.entries (s : Snapshot) : List (Σ _ : OrderKey, ℚ) :=
  s.bids.map (RestingOrder.entry .buy) ++ s.asks.map (RestingOrder.entry .sell)

/-- Resting orders as one finite map to their sizes. -/
abbrev FlatOrders := Finmap fun _ : OrderKey => ℚ

namespace FlatOrders

/-- the total size at a price value -/
def total (m : FlatOrders) (side : Side) (q : ℚ) : ℚ :=
  ((m.entries.filter fun e => e.1.side = side ∧ e.1.price = q).map Sigma.snd).sum

/-- The map with the rows of a side set one after another. -/
def setRows (side : Side) (m : FlatOrders) (rows : List RestingOrder) : FlatOrders :=
  rows.foldl (fun m r => m.insert ⟨side, r.price.toRat, r.orderId⟩ r.size.toRat) m

/-- the orders of a snapshot; of two with one key the later stays -/
def ofSnapshot (s : Snapshot) : FlatOrders := setRows .sell (setRows .buy ∅ s.bids) s.asks

theorem setRows_toFinmap (side : Side) (l : List (Σ _ : OrderKey, ℚ)) (rows : List RestingOrder) :
    setRows side l.toFinmap rows =
      ((rows.map (RestingOrder.entry side)).reverse ++ l).toFinmap := by
  induction rows generalizing l with
  | nil => rfl
  | cons r rows ih =>
    rw [List.map_cons, List.reverse_cons, List.append_assoc, List.singleton_append, ← ih,
      RestingOrder.entry, Finmap.toFinmap_cons]
    rfl

theorem ofSnapshot_eq_toFinmap (s : Snapshot) : ofSnapshot s = s.entries.reverse.toFinmap := by
  have hbids := setRows_toFinmap .buy [] s.bids
  rw [List.append_nil] at hbids
  rw [ofSnapshot, Snapshot.entries, List.reverse_append, ← setRows_toFinmap, ← hbids]
  rfl

theorem entries_toFinmap {l : List (Σ _ : OrderKey, ℚ)} (h : l.NodupKeys) :
    l.toFinmap.entries = (l : Multiset _) := by
  have hself : l.dedupKeys = l := by
    induction l with
    | nil => rfl
    | cons e l ih =>
      obtain ⟨he, hl⟩ := List.nodupKeys_cons.mp h
      rw [List.dedupKeys_cons, ih hl, List.kinsert_def, List.kerase_of_notMem_keys he]
  change Multiset.ofList l.toAList.entries = _
  rw [AList.entries_toAList, hself]

end FlatOrders

/-! ## One side -/

namespace Orders

variable {o : Orders} {side : Side} {q : ℚ} {id : String}

/-- the orders of a level as entries of a flat map -/
def levelEntries (side : Side) (q : ℚ) (t : Table Decimal) : List (Σ _ : OrderKey, ℚ) :=
  t.pairs.map fun e => ⟨⟨side, q, e.1⟩, e.2.toRat⟩

/-- the orders of a side as entries of a flat map -/
def entries (side : Side) (o : Orders) : List (Σ _ : OrderKey, ℚ) :=
  o.rungs.flatMap fun r => levelEntries side r.1.toRat r.2

theorem sizeAt_eq_some_iff (ho : o.WellFormed) {size : Decimal} :
    o.sizeAt q id = some size ↔
      ∃ r ∈ o.rungs, r.1.toRat = q ∧ (id, size) ∈ r.2.pairs := by
  constructor
  · intro h
    cases hr : o.rungAt q with
    | none => simp [sizeAt, levelAt, hr] at h
    | some t =>
      obtain ⟨p, hmem, rfl⟩ := Ladder.mem_rungs_of_rungAt hr
      rw [sizeAt, ho.levelAt_rung hmem, Table.find?_eq_some_iff (ho.distinct _ hmem)] at h
      exact ⟨(p, t), hmem, rfl, h⟩
  · rintro ⟨r, hmem, rfl, hpair⟩
    rw [sizeAt, ho.levelAt_rung hmem, Table.find?_eq_some_iff (ho.distinct _ hmem)]
    exact hpair

theorem mem_entries_iff (ho : o.WellFormed) {k : OrderKey} {v : ℚ} :
    (⟨k, v⟩ : Σ _ : OrderKey, ℚ) ∈ o.entries side ↔
      k.side = side ∧ (o.sizeAt k.price k.orderId).map Decimal.toRat = some v := by
  simp only [entries, levelEntries, List.mem_flatMap, List.mem_map, Option.map_eq_some_iff,
    sizeAt_eq_some_iff ho]
  constructor
  · rintro ⟨r, hr, e, he, heq⟩
    cases heq
    exact ⟨rfl, e.2, ⟨r, hr, rfl, he⟩, rfl⟩
  · rintro ⟨rfl, size, ⟨r, hr, hprice, hpair⟩, rfl⟩
    exact ⟨r, hr, (k.orderId, size), hpair, by rw [hprice]⟩

/-- Within a level the keys differ in their ids, and those of two levels in their prices. -/
theorem nodupKeys_entries (ho : o.WellFormed) (side : Side) : (o.entries side).NodupKeys := by
  rw [List.NodupKeys, List.keys, entries, List.map_flatMap, List.nodup_flatMap]
  constructor
  · intro r hr
    have hids : (r.2.pairs.map Prod.fst).Nodup := ho.distinct r hr
    have hkeys := hids.map (f := fun id => (⟨side, r.1.toRat, id⟩ : OrderKey))
      fun _ _ h => (OrderKey.mk.inj h).2.2
    rw [List.map_map] at hkeys
    rw [levelEntries, List.map_map]
    exact hkeys
  · refine (Ladder.ascending_iff.mp ho.ascending).imp fun {r r'} hlt => ?_
    intro k hk hk'
    simp only [levelEntries, List.map_map, List.mem_map, Function.comp] at hk hk'
    obtain ⟨e, -, rfl⟩ := hk
    obtain ⟨e', -, heq⟩ := hk'
    exact hlt.ne' (OrderKey.mk.inj heq).2.1

/-- The entries at a price value are those of its level. -/
theorem filter_entries (ho : o.WellFormed) (side s : Side) (q : ℚ) :
    (o.entries side).filter (fun e => e.1.side = s ∧ e.1.price = q) =
      if side = s then levelEntries side q (o.levelAt q) else [] := by
  have hlevel : ∀ r : Decimal × Table Decimal,
      (levelEntries side r.1.toRat r.2).filter (fun e => e.1.side = s ∧ e.1.price = q) =
        if side = s ∧ r.1.toRat = q then levelEntries side r.1.toRat r.2 else [] := by
    intro r
    by_cases hs : side = s ∧ r.1.toRat = q
    · simp [levelEntries, List.filter_map, Function.comp_def, hs]
    · simp [levelEntries, List.filter_map, Function.comp_def, hs]
  rw [entries, List.filter_flatMap]
  simp only [hlevel]
  by_cases hs : side = s
  · simp only [hs, true_and, if_true]
    rw [levelAt]
    obtain ⟨rs⟩ := o
    have hasc := Ladder.ascending_iff.mp ho.ascending
    clear ho
    simp only [Ladder.rungAt] at hasc ⊢
    induction rs with
    | nil => rfl
    | cons r rs ih =>
      obtain ⟨hr, hrs⟩ := List.pairwise_cons.mp hasc
      by_cases hq : r.1.toRat = q
      · have hrest : rs.flatMap (fun r => if r.1.toRat = q then
            levelEntries s r.1.toRat r.2 else []) = [] :=
          List.flatMap_eq_nil_iff.mpr fun r' hr' => if_neg (hq ▸ (hr r' hr').ne')
        rw [List.flatMap_cons, hrest, if_pos hq, List.append_nil, hq]
        simp [hq]
      · simpa [List.find?_cons, hq] using ih hrs
  · simp [hs]

end Orders

/-! ## Both sides -/

namespace OrderIndex

variable {x y : OrderIndex}

/-- Both sides are well formed. -/
def WellFormed (x : OrderIndex) : Prop := ∀ s, (x.side s).WellFormed

/-- the orders of both sides as entries of a flat map -/
def entries (x : OrderIndex) : List (Σ _ : OrderKey, ℚ) :=
  (x.side .buy).entries .buy ++ (x.side .sell).entries .sell

/-- The flat map of an index: an entry for each resting order. -/
def flat (x : OrderIndex) : FlatOrders := x.entries.toFinmap

theorem side_withSide (x : OrderIndex) (s s' : Side) (o : Orders) :
    (x.withSide s o).side s' = if s = s' then o else x.side s' := by
  cases s <;> cases s' <;> rfl

@[simp] theorem withSide_self (x : OrderIndex) (s : Side) : x.withSide s (x.side s) = x := by
  cases s <;> rfl

theorem WellFormed.empty : OrderIndex.empty.WellFormed := fun s => by
  cases s <;> exact Orders.WellFormed.empty

theorem WellFormed.withSide (h : x.WellFormed) (s : Side) {o : Orders} (ho : o.WellFormed) :
    (x.withSide s o).WellFormed := fun s' => by
  rw [side_withSide]
  split_ifs
  · exact ho
  · exact h s'

/-- The same orders on both sides, listed in any order. -/
def Alike (x y : OrderIndex) : Prop := ∀ s, (x.side s).Alike (y.side s)

theorem Alike.refl (x : OrderIndex) : x.Alike x := fun _ => .refl _

theorem Alike.symm (h : x.Alike y) : y.Alike x := fun s => (h s).symm

theorem Alike.trans {z : OrderIndex} (h : x.Alike y) (h' : y.Alike z) : x.Alike z := fun s =>
  (h s).trans (h' s)

theorem Alike.withSide (h : x.Alike y) (s : Side) {o o' : Orders} (ho : o.Alike o') :
    (x.withSide s o).Alike (y.withSide s o') := fun s' => by
  rw [side_withSide, side_withSide]
  split_ifs
  · exact ho
  · exact h s'

theorem Alike.wellFormed (h : x.Alike y) (hy : y.WellFormed) : x.WellFormed := fun s =>
  (h s).wellFormed (hy s)

theorem mem_entries_iff (h : x.WellFormed) {k : OrderKey} {v : ℚ} :
    (⟨k, v⟩ : Σ _ : OrderKey, ℚ) ∈ x.entries ↔
      ((x.side k.side).sizeAt k.price k.orderId).map Decimal.toRat = some v := by
  rw [entries, List.mem_append, Orders.mem_entries_iff (h .buy), Orders.mem_entries_iff (h .sell)]
  cases hk : k.side <;> simp

theorem nodupKeys_entries (h : x.WellFormed) : x.entries.NodupKeys := by
  rw [entries, List.NodupKeys, List.keys, List.map_append, List.nodup_append']
  refine ⟨Orders.nodupKeys_entries (h .buy) .buy, Orders.nodupKeys_entries (h .sell) .sell, ?_⟩
  intro k hk hk'
  obtain ⟨⟨k, v⟩, he, rfl⟩ := List.mem_map.mp hk
  obtain ⟨⟨k', v'⟩, he', rfl⟩ := List.mem_map.mp hk'
  have hbuy := ((Orders.mem_entries_iff (h .buy)).mp he).1
  have hsell := ((Orders.mem_entries_iff (h .sell)).mp he').1
  exact absurd (hbuy.symm.trans hsell) (by decide)

/-- The entries of the flat map are those of the index. -/
theorem entries_flat (h : x.WellFormed) : x.flat.entries = (x.entries : Multiset _) :=
  FlatOrders.entries_toFinmap (nodupKeys_entries h)

/-- A snapshot that lists the orders of an index, in any order, has the same flat map. -/
theorem ofSnapshot_eq_flat (h : x.WellFormed) {s : Snapshot} (hs : s.entries.Perm x.entries) :
    FlatOrders.ofSnapshot s = x.flat := by
  have hperm : s.entries.reverse.Perm x.entries := (List.reverse_perm _).trans hs
  have hnodup := (List.perm_nodupKeys hperm).mpr (nodupKeys_entries h)
  refine Finmap.ext ?_
  rw [FlatOrders.ofSnapshot_eq_toFinmap, FlatOrders.entries_toFinmap hnodup, entries_flat h]
  exact Multiset.coe_eq_coe.mpr hperm

theorem lookup_flat (h : x.WellFormed) (k : OrderKey) :
    x.flat.lookup k = ((x.side k.side).sizeAt k.price k.orderId).map Decimal.toRat := by
  refine Option.ext fun v => ?_
  rw [Finmap.lookup_eq_some_iff, entries_flat h, Multiset.mem_coe, mem_entries_iff h]

theorem lookup_flat_of_price (h : x.WellFormed) (s : Side) (p : Decimal) (id : String) :
    x.flat.lookup ⟨s, p.toRat, id⟩ = ((x.side s).size? p id).map Decimal.toRat := by
  rw [lookup_flat h, Orders.size?_eq_sizeAt]

/-- The total size at a price is the sum of the values of its level. -/
theorem total_flat (h : x.WellFormed) (s : Side) (q : ℚ) :
    x.flat.total s q = (((x.side s).levelAt q).values.map Decimal.toRat).sum := by
  rw [FlatOrders.total, entries_flat h, Multiset.filter_coe, Multiset.map_coe, Multiset.sum_coe,
    entries, List.filter_append, Orders.filter_entries (h .buy) .buy,
    Orders.filter_entries (h .sell) .sell]
  cases s <;> simp [Orders.levelEntries, Table.values, side, Function.comp_def]

/-- The number of orders is that of the keys. -/
theorem card_keys_flat (h : x.WellFormed) : x.flat.keys.card = x.count := by
  have hcount : ∀ side (o : Orders), (o.entries side).length = o.count := fun side o => by
    rw [Orders.entries, List.length_flatMap, Orders.count, ← List.foldl_map, ← List.sum_eq_foldl]
    simp [Orders.levelEntries, Table.size]
  calc x.flat.keys.card = Multiset.card x.flat.entries := by
        change Multiset.card (Multiset.keys x.flat.entries) = _
        rw [Multiset.keys, Multiset.card_map]
    _ = x.entries.length := by rw [entries_flat h, Multiset.coe_card]
    _ = x.count := by rw [entries, List.length_append, hcount, hcount, count, side, side]

/-! ## Changes -/

theorem flat_empty : OrderIndex.empty.flat = ∅ := rfl

theorem flat_set (h : x.WellFormed) (s : Side) (p : Decimal) (id : String) (size : Decimal) :
    (x.withSide s ((x.side s).set p id size)).flat =
      x.flat.insert ⟨s, p.toRat, id⟩ size.toRat := by
  refine Finmap.ext_lookup fun k => ?_
  rw [lookup_flat (h.withSide s ((h s).set p id size)), side_withSide]
  by_cases hk : k = ⟨s, p.toRat, id⟩
  · subst hk
    rw [Finmap.lookup_insert, if_pos rfl, Orders.sizeAt_set, if_pos ⟨rfl, rfl⟩, Option.map_some]
  · rw [Finmap.lookup_insert_of_ne _ hk, lookup_flat h]
    split_ifs with hs
    · rw [Orders.sizeAt_set, hs, if_neg]
      rintro ⟨hp, hid⟩
      exact hk (by rw [hs, hp, hid])
    · rfl

theorem flat_remove (h : x.WellFormed) (s : Side) (p : Decimal) (id : String) :
    (x.withSide s ((x.side s).remove p id)).flat = x.flat.erase ⟨s, p.toRat, id⟩ := by
  refine Finmap.ext_lookup fun k => ?_
  rw [lookup_flat (h.withSide s ((h s).remove p id)), side_withSide]
  by_cases hk : k = ⟨s, p.toRat, id⟩
  · subst hk
    rw [Finmap.lookup_erase, if_pos rfl, Orders.sizeAt_remove, if_pos ⟨rfl, rfl⟩, Option.map_none]
  · rw [Finmap.lookup_erase_ne hk, lookup_flat h]
    split_ifs with hs
    · rw [Orders.sizeAt_remove, hs, if_neg]
      rintro ⟨hp, hid⟩
      exact hk (by rw [hs, hp, hid])
    · rfl

theorem flat_foldl_set (h : x.WellFormed) (s : Side) (rows : List RestingOrder) :
    (x.withSide s (rows.foldl (fun o r => o.set r.price r.orderId r.size) (x.side s))).flat =
      FlatOrders.setRows s x.flat rows := by
  induction rows generalizing x with
  | nil => rw [List.foldl_nil, withSide_self]; rfl
  | cons r rows ih =>
    have hr := h.withSide s ((h s).set r.price r.orderId r.size)
    rw [FlatOrders.setRows, List.foldl_cons, List.foldl_cons, ← flat_set h,
      ← FlatOrders.setRows, ← ih hr, side_withSide, if_pos rfl]
    cases s <;> rfl

/-- A flat map does not tell how the orders are listed. -/
theorem Alike.flat_eq (h : x.Alike y) (hy : y.WellFormed) : x.flat = y.flat := by
  refine Finmap.ext_lookup fun k => ?_
  rw [lookup_flat (h.wellFormed hy), lookup_flat hy, (h k.side).sizeAt_eq]

/-! ## Snapshots -/

section Snapshots

variable [A : Arrangement]

theorem alike_ofSnapshot (s : Snapshot) :
    (ofSnapshot s).Alike ⟨Orders.ofList s.bids, Orders.ofList s.asks⟩ := fun side => by
  cases side <;> exact alike_sideOfSnapshot ..

theorem WellFormed.ofSnapshot (s : Snapshot) : (OrderIndex.ofSnapshot s).WellFormed :=
  (alike_ofSnapshot s).wellFormed fun side => by
    cases side <;> exact Orders.WellFormed.ofList _

/-- The orders of a snapshot are its rows, inserted in their order. -/
theorem flat_ofSnapshot (s : Snapshot) : (ofSnapshot s).flat = FlatOrders.ofSnapshot s := by
  have hbids := flat_foldl_set WellFormed.empty .buy s.bids
  have hbuy := WellFormed.empty.withSide .buy (Orders.WellFormed.ofList s.bids)
  have hasks := flat_foldl_set hbuy .sell s.asks
  rw [(alike_ofSnapshot s).flat_eq (hbuy.withSide .sell (Orders.WellFormed.ofList s.asks)),
    FlatOrders.ofSnapshot, ← flat_empty, ← hbids]
  exact hasks

end Snapshots

end OrderIndex

end MarketFeed
