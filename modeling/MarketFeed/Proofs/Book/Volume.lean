import MarketFeed.Proofs.Book.Replay

/-!
# The volume of resting orders

An event adds at most the sizes that it names to the volume of a product. If all sizes that come up
are quantities whose total stays below `10 ^ 20`, then no total of a level and no rest of a trade
is ever rounded.

## Main definitions

* `FlatOrders.volume`: the total size of all orders
* `FlatOrders.Bounded`: all sizes are quantities, with a bound of the volume
* `Event.sizes`, `Snapshot.sizes`: the sizes that a message brings in

## Main results

* `FlatOrders.Bounded.apply`, `FlatOrders.Bounded.ofSnapshot`: the bound after a message
* `OrderIndex.sumsExactly_of_bounded`: the totals of levels are exact
* `OrderIndex.takesExactly_diff`, `OrderIndex.takesExactly_snapshot`: so are all computations
-/

namespace MarketFeed

open Decimal (IsQuantity)

/-- the sizes that an event brings in -/
def Event.sizes : Event → List Decimal
  | .opened _ _ remaining => [remaining]
  | .traded _ _ _ _ size => [size]
  | .resized _ _ _ newSize => newSize.toList
  | .closed .. => []

/-- the sizes that a snapshot brings in -/
def Snapshot.sizes (s : Snapshot) : List Decimal := (s.bids ++ s.asks).map RestingOrder.size

/-- the sizes that some diffs bring in -/
def Diff.sizesOf (ds : List Diff) : List Decimal := ds.flatMap fun d => d.event.sizes

namespace FlatOrders

variable {m : FlatOrders} {k : OrderKey} {q v : ℚ}

/-- the total size of all orders -/
def volume (m : FlatOrders) : ℚ := (m.entries.map Sigma.snd).sum

theorem volume_insert (m : FlatOrders) (k : OrderKey) (q : ℚ) :
    volume (m.insert k q) = q + volume (m.erase k) := by
  have herase : m.insert k q = (m.erase k).insert k q := by
    refine Finmap.ext_lookup fun k' => ?_
    by_cases hk : k' = k
    · rw [hk, Finmap.lookup_insert, Finmap.lookup_insert]
    · rw [Finmap.lookup_insert_of_ne _ hk, Finmap.lookup_insert_of_ne _ hk,
        Finmap.lookup_erase_ne hk]
  rw [herase, volume, Finmap.entries_insert_of_notMem Finmap.notMem_erase_self, Multiset.map_cons,
    Multiset.sum_cons, volume]

theorem volume_erase (h : m.lookup k = some q) : volume (m.erase k) = volume m - q := by
  have hinsert : m.insert k q = m := by
    refine Finmap.ext_lookup fun k' => ?_
    by_cases hk : k' = k
    · rw [hk, Finmap.lookup_insert, h]
    · rw [Finmap.lookup_insert_of_ne _ hk]
  have hvolume := volume_insert m k q
  rw [hinsert] at hvolume
  linarith

/-- All sizes are quantities, and their total is at most `v`. -/
structure Bounded (v : ℚ) (m : FlatOrders) : Prop where
  quantity : ∀ k, ∀ q ∈ m.lookup k, IsQuantity q
  volume_le : m.volume ≤ v

namespace Bounded

theorem mono {w : ℚ} (h : Bounded v m) (hle : v ≤ w) : Bounded w m :=
  ⟨h.quantity, h.volume_le.trans hle⟩

theorem empty : Bounded 0 ∅ := ⟨nofun, le_rfl⟩

theorem entries_nonneg (h : Bounded v m) : ∀ e ∈ m.entries, 0 ≤ e.2 := fun e he =>
  (h.quantity e.1 e.2 (Finmap.lookup_eq_some_iff.mpr he)).nonneg

theorem volume_nonneg (h : Bounded v m) : 0 ≤ m.volume :=
  Multiset.sum_nonneg fun r hr => by
    obtain ⟨e, he, rfl⟩ := Multiset.mem_map.mp hr
    exact h.entries_nonneg e he

theorem quantity_erase (h : Bounded v m) (k : OrderKey) :
    ∀ k', ∀ q ∈ (m.erase k).lookup k', IsQuantity q := by
  intro k' q hq
  by_cases hk : k' = k
  · rw [hk, Finmap.lookup_erase] at hq
    cases hq
  · rw [Finmap.lookup_erase_ne hk] at hq
    exact h.quantity k' q hq

theorem quantity_insert (h : Bounded v m) (k : OrderKey) (hq : IsQuantity q) :
    ∀ k', ∀ q' ∈ (m.insert k q).lookup k', IsQuantity q' := by
  intro k' q' hq'
  by_cases hk : k' = k
  · rw [hk, Finmap.lookup_insert] at hq'
    exact Option.some.inj hq' ▸ hq
  · rw [Finmap.lookup_insert_of_ne _ hk] at hq'
    exact h.quantity k' q' hq'

theorem erase (h : Bounded v m) (k : OrderKey) : Bounded v (m.erase k) := by
  refine ⟨h.quantity_erase k, ?_⟩
  by_cases hk : k ∈ m
  · obtain ⟨q, hq⟩ := Finmap.mem_iff.mp hk
    have := (h.quantity k q hq).nonneg
    have := h.volume_le
    rw [volume_erase hq]
    linarith
  · rw [erase_of_notMem hk]
    exact h.volume_le

theorem insert (h : Bounded v m) (k : OrderKey) (hq : IsQuantity q) :
    Bounded (v + q) (m.insert k q) := by
  refine ⟨h.quantity_insert k hq, ?_⟩
  have := (h.erase k).volume_le
  rw [volume_insert]
  linarith

/-- A size that takes the place of a greater one does not add to the volume. -/
theorem insert_of_le {w : ℚ} (h : Bounded v m) (hw : m.lookup k = some w) (hq : IsQuantity q)
    (hle : q ≤ w) : Bounded v (m.insert k q) := by
  refine ⟨h.quantity_insert k hq, ?_⟩
  have := h.volume_le
  rw [volume_insert, volume_erase hw]
  linarith

/-- A size is part of the volume. -/
theorem lookup_le (h : Bounded v m) (hq : m.lookup k = some q) : q ≤ v := by
  have hrest := (h.erase k).volume_nonneg
  rw [volume_erase hq] at hrest
  linarith [h.volume_le]

/-- The sizes of some of the orders are part of the volume. -/
theorem sum_filter_le (h : Bounded v m) (p : (Σ _ : OrderKey, ℚ) → Prop) [DecidablePred p] :
    ((m.entries.filter p).map Sigma.snd).sum ≤ v := by
  have hrest : 0 ≤ ((m.entries.filter fun e => ¬ p e).map Sigma.snd).sum := by
    refine Multiset.sum_nonneg fun r hr => ?_
    obtain ⟨e, he, rfl⟩ := Multiset.mem_map.mp hr
    exact h.entries_nonneg e (Multiset.mem_of_mem_filter he)
  have hsplit := congrArg (fun es => (Multiset.map Sigma.snd es).sum)
    (Multiset.filter_add_not p m.entries)
  simp only [Multiset.map_add, Multiset.sum_add] at hsplit
  have hle := h.volume_le
  rw [volume, ← hsplit] at hle
  linarith

/-- The total at a price is part of the volume. -/
theorem total_le (h : Bounded v m) (s : Side) (q : ℚ) : m.total s q ≤ v := h.sum_filter_le _

/-- An event adds at most the sizes that it brings in, and a trade only takes off. -/
theorem apply (h : Bounded v m) (s : Side) {e : Event} (he : ∀ a ∈ e.sizes, IsQuantity a.toRat) :
    Bounded (v + (e.sizes.map Decimal.toRat).sum) (m.apply s e) := by
  cases e with
  | opened id price remaining =>
    simpa [Event.sizes, FlatOrders.apply] using h.insert _ (he remaining List.mem_cons_self)
  | closed id price remaining reason =>
    simpa [Event.sizes, FlatOrders.apply] using h.erase _
  | resized id price old new =>
    rcases new with _ | new
    · rcases price with _ | price <;> simpa [Event.sizes, FlatOrders.apply] using h
    have hnew : IsQuantity new.toRat := he new List.mem_cons_self
    have hmono : Bounded (v + new.toRat) m := h.mono (by linarith [hnew.nonneg])
    rcases price with _ | price
    · simpa [Event.sizes, FlatOrders.apply] using hmono
    simp only [Event.sizes, Option.toList_some, List.map_singleton, List.sum_singleton,
      FlatOrders.apply]
    split_ifs
    · exact h.insert _ hnew
    · exact hmono
  | traded trade id taker price traded =>
    have htraded : IsQuantity traded.toRat := he traded List.mem_cons_self
    have hle : v ≤ v + ([traded].map Decimal.toRat).sum := by
      simpa using htraded.nonneg
    refine mono ?_ hle
    simp only [FlatOrders.apply]
    cases hw : m.lookup ⟨s, price.toRat, id⟩ with
    | none => exact h
    | some w =>
      have hquantity := h.quantity _ w hw
      refine h.insert_of_le hw (hquantity.sub_max_zero htraded) (max_le ?_ hquantity.nonneg)
      linarith [htraded.nonneg]

theorem setRows (h : Bounded v m) (s : Side) {rows : List RestingOrder}
    (hrows : ∀ r ∈ rows, IsQuantity r.size.toRat) :
    Bounded (v + (rows.map fun r => r.size.toRat).sum) (FlatOrders.setRows s m rows) := by
  induction rows generalizing m v with
  | nil => simpa [FlatOrders.setRows] using h
  | cons r rows ih =>
    have hr := h.insert ⟨s, r.price.toRat, r.orderId⟩ (hrows r List.mem_cons_self)
    have hrest := ih hr fun r' hr' => hrows r' (List.mem_cons_of_mem _ hr')
    rw [List.map_cons, List.sum_cons, ← add_assoc]
    exact hrest

/-- A snapshot has at most the sizes of its rows. -/
theorem ofSnapshot {s : Snapshot} (hs : ∀ a ∈ s.sizes, IsQuantity a.toRat) :
    Bounded (s.sizes.map Decimal.toRat).sum (FlatOrders.ofSnapshot s) := by
  have hrows : ∀ r ∈ s.bids ++ s.asks, IsQuantity r.size.toRat := fun r hr =>
    hs r.size (List.mem_map_of_mem hr)
  have hbids := empty.setRows .buy fun r hr => hrows r (List.mem_append_left _ hr)
  have hasks := hbids.setRows .sell fun r hr => hrows r (List.mem_append_right _ hr)
  simpa [Snapshot.sizes, FlatOrders.ofSnapshot, Function.comp_def] using hasks

end Bounded

end FlatOrders

/-! ## Exact computations -/

namespace OrderIndex

variable {x : OrderIndex} {v : ℚ}

theorem isQuantity_of_bounded (h : x.WellFormed) (hx : x.flat.Bounded v) (s : Side) (q : ℚ) :
    ∀ a ∈ ((x.side s).levelAt q).values, IsQuantity a.toRat := by
  intro a ha
  obtain ⟨⟨id, a⟩, hpair, rfl⟩ := List.mem_map.mp ha
  refine hx.quantity ⟨s, q, id⟩ a.toRat ?_
  have hfind := (Table.find?_eq_some_iff ((h s).levelAt q)).mpr hpair
  rw [lookup_flat h, Orders.sizeAt, hfind]
  rfl

theorem sum_lt_of_bounded (h : x.WellFormed) (hx : x.flat.Bounded v) (hv : v < 10 ^ 20) (s : Side)
    (q : ℚ) : (((x.side s).levelAt q).values.map Decimal.toRat).sum < 10 ^ 20 := by
  rw [← total_flat h]
  exact (hx.total_le s q).trans_lt hv

/-- The sizes of a level add up exactly. -/
theorem sumsExactly_of_bounded (h : x.WellFormed) (hx : x.flat.Bounded v) (hv : v < 10 ^ 20)
    (s : Side) (q : ℚ) : Decimal.SumsExactly .zero ((x.side s).levelAt q).values := by
  refine Decimal.sumsExactly_of_isQuantity (Decimal.toRat_zero ▸ .zero)
    (isQuantity_of_bounded h hx s q) ?_
  rw [Decimal.toRat_zero, zero_add]
  exact sum_lt_of_bounded h hx hv s q

/-- A snapshot is taken exactly if its orders stay below `10 ^ 20`. -/
theorem takesExactly_snapshot [A : Arrangement] {s : Snapshot}
    (hs : (FlatOrders.ofSnapshot s).Bounded v) (hv : v < 10 ^ 20) (x : OrderIndex) :
    x.TakesExactly (.snapshot s) := by
  have hwf := WellFormed.ofSnapshot s
  rw [← flat_ofSnapshot] at hs
  have hexact := sumsExactly_of_bounded hwf hs hv
  refine ⟨fun r hr => ?_, fun r hr => ?_⟩
  · have := hexact .buy r.1.toRat
    rwa [(hwf .buy).levelAt_rung hr] at this
  · have := hexact .sell r.1.toRat
    rwa [(hwf .sell).levelAt_rung hr] at this

/-- What a trade leaves of its maker is exact. -/
theorem subtractsExactly_of_bounded (h : x.WellFormed) (hx : x.flat.Bounded v) (s : Side)
    {e : Event} (he : ∀ a ∈ e.sizes, IsQuantity a.toRat)
    (hv : v + (e.sizes.map Decimal.toRat).sum < 10 ^ 20) : (x.side s).SubtractsExactly e := by
  cases e with
  | opened id price remaining => trivial
  | closed id price remaining reason => trivial
  | resized id price old new => trivial
  | traded trade id taker price traded =>
    intro size hsize
    have htraded : IsQuantity traded.toRat := he traded List.mem_cons_self
    have hlookup : x.flat.lookup ⟨s, price.toRat, id⟩ = some size.toRat := by
      rw [lookup_flat_of_price h, Option.mem_def.mp hsize, Option.map_some]
    have hle := hx.lookup_le hlookup
    have hnonneg := hx.volume_nonneg.trans hx.volume_le
    simp only [Event.sizes, List.map_singleton, List.sum_singleton] at hv
    have hquantity := hx.quantity _ _ hlookup
    exact Decimal.sub_exact (hquantity.exists_sub htraded (by linarith [htraded.nonneg])
      (by linarith))

/-- A diff is taken exactly if the orders and its sizes stay below `10 ^ 20`. -/
theorem takesExactly_diff [A : Arrangement] (h : x.WellFormed) (hx : x.flat.Bounded v) {d : Diff}
    (hd : ∀ a ∈ d.event.sizes, IsQuantity a.toRat)
    (hv : v + (d.event.sizes.map Decimal.toRat).sum < 10 ^ 20) : x.TakesExactly (.diff d) := by
  have hsub := subtractsExactly_of_bounded h hx d.side hd hv
  obtain ⟨o, touched, happly, hflat, -⟩ := side_apply_refines h d.side d.event hsub
  have hy : (x.withSide d.side o).WellFormed := h.withSide d.side ((h d.side).apply happly)
  refine ⟨hsub, fun step hstep p _ => ?_⟩
  obtain rfl : step = (o, touched) := Except.ok.inj ((mem_toOption_iff.mp hstep).symm.trans happly)
  have halike : (x.withSide d.side (listAnew d p o)).Alike (x.withSide d.side o) :=
    (Alike.refl x).withSide d.side (alike_listAnew d p o)
  rw [← halike.flat_eq hy] at hflat
  have hexact := sumsExactly_of_bounded (halike.wellFormed hy) (hflat ▸ hx.apply d.side hd) hv
    d.side p.toRat
  rwa [side_withSide, if_pos rfl, ← Orders.level_eq_levelAt] at hexact

end OrderIndex

/-! ## Diffs one after another -/

/-- the map after some diffs -/
def FlatOrders.replay (m : FlatOrders) (ds : List Diff) : FlatOrders :=
  ds.foldl (fun m d => m.step (.diff d)) m

theorem FlatOrders.replay_concat (m : FlatOrders) (ds : List Diff) (d : Diff) :
    m.replay (ds ++ [d]) = (m.replay ds).step (.diff d) := List.foldl_concat ..

/-- the orders after some diffs -/
def OrderIndex.replay [A : Arrangement] : OrderIndex → List Diff → Except Overflow OrderIndex
  | x, [] => .ok x
  | x, d :: ds => do
    let (y, _) ← x.apply d
    y.replay ds

theorem FlatOrders.Bounded.replay {m : FlatOrders} {v : ℚ} (h : Bounded v m) {ds : List Diff}
    (hds : ∀ a ∈ Diff.sizesOf ds, IsQuantity a.toRat) :
    Bounded (v + ((Diff.sizesOf ds).map Decimal.toRat).sum) (m.replay ds) := by
  induction ds generalizing m v with
  | nil => simpa [Diff.sizesOf, FlatOrders.replay] using h
  | cons d ds ih =>
    simp only [Diff.sizesOf, List.flatMap_cons, List.mem_append] at hds
    have hd := h.apply d.side fun a ha => hds a (.inl ha)
    rw [Diff.sizesOf, List.flatMap_cons, List.map_append, List.sum_append, ← add_assoc]
    exact ih hd fun a ha => hds a (.inr ha)

/-- Diffs whose sizes stay below `10 ^ 20` with the orders are replayed as on the flat map. -/
theorem OrderIndex.exists_replay [A : Arrangement] {x : OrderIndex} {v : ℚ} (h : x.WellFormed)
    (hx : x.flat.Bounded v) {ds : List Diff} (hds : ∀ a ∈ Diff.sizesOf ds, IsQuantity a.toRat)
    (hv : v + ((Diff.sizesOf ds).map Decimal.toRat).sum < 10 ^ 20) :
    ∃ y, x.replay ds = .ok y ∧ y.WellFormed ∧ y.flat = x.flat.replay ds := by
  induction ds generalizing x v with
  | nil => exact ⟨x, rfl, h, rfl⟩
  | cons d ds ih =>
    simp only [Diff.sizesOf, List.flatMap_cons, List.mem_append] at hds
    rw [Diff.sizesOf, List.flatMap_cons, List.map_append, List.sum_append, ← add_assoc] at hv
    have hrest : 0 ≤ ((Diff.sizesOf ds).map Decimal.toRat).sum :=
      Decimal.sum_toRat_nonneg fun a ha => hds a (.inr ha)
    have hexact := takesExactly_diff h hx (fun a ha => hds a (.inl ha))
      ((le_add_of_nonneg_right hrest).trans_lt hv)
    obtain ⟨y, rows, happly, hy, hflat, -⟩ := apply_refines h d hexact
    have hbounded := hx.apply d.side fun a ha => hds a (.inl ha)
    obtain ⟨z, hz, hwf, hreplay⟩ := ih hy (hflat ▸ hbounded) (fun a ha => hds a (.inr ha)) hv
    refine ⟨z, bind_eq_ok_iff.mpr ⟨(y, rows), happly, hz⟩, hwf, ?_⟩
    rw [hreplay, hflat]
    rfl

end MarketFeed
