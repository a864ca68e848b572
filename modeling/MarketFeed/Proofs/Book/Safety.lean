import MarketFeed.Proofs.Book.Figures
import MarketFeed.Proofs.Book.Reachable
import MarketFeed.Proofs.Book.Volume

/-!
# No overflow

The exchange's prices are positive, its prices and sizes have at most eight decimal places, the
prices and the total of the sizes stay below `10 ^ 20`. Then whatever the messages say, in whatever
order they come, nothing that the books compute is out of range: the sizes that have come in are a
bound of what rests, and so of every level and of every depth.

## Main definitions

* `Update.Moderate`: updates of the size that the exchange uses
* `FlatOrders.Priced`: all orders stand at prices
* `TrackedBook.Sized`, `Books.Sized`: what rests is bounded by the sizes that have come in

## Main results

* `TrackedBook.Sized.moderate_levels`: the levels of a product are bounded as well
* `Books.Sized.receive`, `Books.Sized.run`: one update, and a list of them
* `Books.run_never_overflows`: updates and states have results, with exact depths
-/

namespace MarketFeed

open Decimal (IsQuantity IsPrice)

/-! ## Messages of moderate size -/

/-- the prices that an event names -/
def Event.prices : Event → List Decimal
  | .opened _ price _ => [price]
  | .traded _ _ _ price _ => [price]
  | .resized _ price _ _ => price.toList
  | .closed _ price _ _ => [price]

/-- the prices that a snapshot names -/
def Snapshot.prices (s : Snapshot) : List Decimal := (s.bids ++ s.asks).map RestingOrder.price

namespace Update

variable {u : Update} {us us' : List Update}

/-- the prices that an update names -/
def prices : Update → List Decimal
  | .diff d => d.event.prices
  | .snapshot s => s.prices

/-- the sizes that an update brings in -/
def sizes : Update → List Decimal
  | .diff d => d.event.sizes
  | .snapshot s => s.sizes

/-- the total of the sizes that some updates bring in -/
def totalSize (us : List Update) : ℚ := ((us.flatMap sizes).map Decimal.toRat).sum

/-- Every price is positive and below `10 ^ 20`, prices and sizes have at most eight decimal places,
no size is negative, and all sizes total below `10 ^ 20`. -/
structure Moderate (us : List Update) : Prop where
  price : ∀ u ∈ us, ∀ p ∈ u.prices, IsPrice p.toRat
  quantity : ∀ u ∈ us, ∀ a ∈ u.sizes, IsQuantity a.toRat
  total_lt : totalSize us < 10 ^ 20

theorem totalSize_cons (u : Update) (us : List Update) :
    totalSize (u :: us) = (u.sizes.map Decimal.toRat).sum + totalSize us := by
  rw [totalSize, List.flatMap_cons, List.map_append, List.sum_append, totalSize]

theorem totalSize_append (us us' : List Update) :
    totalSize (us ++ us') = totalSize us + totalSize us' := by
  rw [totalSize, List.flatMap_append, List.map_append, List.sum_append, totalSize, totalSize]

theorem totalSize_nonneg (h : ∀ u ∈ us, ∀ a ∈ u.sizes, IsQuantity a.toRat) : 0 ≤ totalSize us := by
  refine Decimal.sum_toRat_nonneg fun a ha => ?_
  obtain ⟨u, hu, ha⟩ := List.mem_flatMap.mp ha
  exact h u hu a ha

/-- What comes first of moderate updates is moderate. -/
theorem Moderate.of_prefix (h : Moderate us) (hpre : us' <+: us) : Moderate us' := by
  obtain ⟨rest, rfl⟩ := hpre
  refine ⟨fun u hu => h.price u (List.mem_append_left _ hu),
    fun u hu => h.quantity u (List.mem_append_left _ hu), ?_⟩
  have hlt := h.total_lt
  have hrest := totalSize_nonneg fun u hu => h.quantity u (List.mem_append_right us' hu)
  rw [totalSize_append] at hlt
  linarith

/-- Updates are moderate if their prices and sizes are spelled with at most eight places. -/
theorem Moderate.of_scale_le (hprices : ∀ u ∈ us, ∀ p ∈ u.prices,
      0 < p.coefficient ∧ p.scale ≤ 8 ∧ p.toRat < 10 ^ 20)
    (hsizes : ∀ u ∈ us, ∀ a ∈ u.sizes, 0 ≤ a.coefficient ∧ a.scale ≤ 8)
    (htotal : totalSize us < 10 ^ 20) : Moderate us where
  price u hu p hp := by
    obtain ⟨hpos, hscale, hlt⟩ := hprices u hu p hp
    exact .of_scale_le hpos hscale hlt
  quantity u hu a ha := .of_scale_le (hsizes u hu a ha).1 (hsizes u hu a ha).2
  total_lt := htotal

theorem moderate_samples : Moderate samples :=
  .of_scale_le (by decide +kernel) (by decide) (by decide +kernel)

end Update

/-! ## Prices of resting orders -/

namespace FlatOrders

variable {m : FlatOrders} {k : OrderKey} {q v : ℚ} {s : Side}

/-- All orders stand at prices. -/
def Priced (m : FlatOrders) : Prop := ∀ k ∈ m, IsPrice k.price

namespace Priced

theorem empty : Priced ∅ := fun _ hk => absurd hk (Finmap.notMem_empty)

theorem insert (h : m.Priced) (hk : IsPrice k.price) (q : ℚ) : Priced (m.insert k q) := by
  intro k' hk'
  rcases Finmap.mem_insert.mp hk' with rfl | hk'
  · exact hk
  · exact h k' hk'

theorem erase (h : m.Priced) (k : OrderKey) : Priced (m.erase k) := fun k' hk' =>
  h k' (Finmap.mem_erase.mp hk').2

theorem apply (h : m.Priced) (s : Side) {e : Event} (he : ∀ p ∈ e.prices, IsPrice p.toRat) :
    (m.apply s e).Priced := by
  cases e with
  | opened id price remaining => exact h.insert (he price List.mem_cons_self) _
  | closed id price remaining reason => exact h.erase _
  | resized id price old new =>
    rcases price with _ | price
    · exact h
    rcases new with _ | new
    · exact h
    simp only [FlatOrders.apply]
    split_ifs
    · exact h.insert (he price List.mem_cons_self) _
    · exact h
  | traded trade id taker price size =>
    simp only [FlatOrders.apply]
    cases m.lookup ⟨s, price.toRat, id⟩ with
    | none => exact h
    | some w => exact h.insert (he price List.mem_cons_self) _

theorem setRows (h : m.Priced) (s : Side) {rows : List RestingOrder}
    (hrows : ∀ r ∈ rows, IsPrice r.price.toRat) : (FlatOrders.setRows s m rows).Priced := by
  induction rows generalizing m with
  | nil => exact h
  | cons r rows ih =>
    obtain ⟨hr, hrows⟩ := List.forall_mem_cons.mp hrows
    exact ih (h.insert hr _) hrows

theorem ofSnapshot {s : Snapshot} (hs : ∀ p ∈ s.prices, IsPrice p.toRat) :
    (FlatOrders.ofSnapshot s).Priced := by
  have hrows : ∀ r ∈ s.bids ++ s.asks, IsPrice r.price.toRat := fun r hr =>
    hs r.price (List.mem_map_of_mem hr)
  exact (empty.setRows .buy fun r hr => hrows r (List.mem_append_left _ hr)).setRows .sell
    fun r hr => hrows r (List.mem_append_right _ hr)

/-- Where there is a total there is a price. -/
theorem of_total_pos (h : m.Priced) (hq : 0 < m.total s q) : IsPrice q := by
  have hne : (m.entries.filter fun e => e.1.side = s ∧ e.1.price = q) ≠ 0 := fun hzero => by
    simp [total, hzero] at hq
  obtain ⟨e, he⟩ := Multiset.exists_mem_of_ne_zero hne
  obtain ⟨hmem, -, rfl⟩ := Multiset.mem_filter.mp he
  exact h e.1 (Finmap.mem_of_lookup_eq_some (Finmap.lookup_eq_some_iff.mpr hmem))

end Priced

namespace Bounded

/-- The totals at different prices are part of the volume. -/
theorem sum_total_le (h : Bounded v m) (s : Side) {qs : List ℚ} (hqs : qs.Nodup) :
    (qs.map (m.total s)).sum ≤ v := by
  have hsum : (qs.map (m.total s)).sum =
      ((m.entries.filter fun e => e.1.side = s ∧ e.1.price ∈ qs).map Sigma.snd).sum := by
    induction qs with
    | nil => simp
    | cons q qs ih =>
      obtain ⟨hq, hqs⟩ := List.nodup_cons.mp hqs
      have hboth : m.entries.filter (fun e => (e.1.side = s ∧ e.1.price = q) ∧
          (e.1.side = s ∧ e.1.price ∈ qs)) = 0 := by
        refine Multiset.filter_eq_nil.mpr fun e _ he => ?_
        exact hq (he.1.2 ▸ he.2.2)
      have heither : m.entries.filter (fun e => e.1.side = s ∧ e.1.price ∈ q :: qs) =
          m.entries.filter (fun e => (e.1.side = s ∧ e.1.price = q) ∨
            (e.1.side = s ∧ e.1.price ∈ qs)) := by
        simp only [List.mem_cons, and_or_left]
      have hadd := Multiset.filter_add_filter (fun e => e.1.side = s ∧ e.1.price = q)
        (fun e => e.1.side = s ∧ e.1.price ∈ qs) m.entries
      rw [hboth, add_zero, ← heither] at hadd
      rw [List.map_cons, List.sum_cons, ih hqs, ← hadd, Multiset.map_add, Multiset.sum_add, total]
  rw [hsum]
  exact h.sum_filter_le _

theorem isQuantity_total (h : Bounded v m) (s : Side) (q : ℚ) : IsQuantity (m.total s q) := by
  refine Multiset.sum_induction IsQuantity _ (fun _ _ => .add) .zero fun r hr => ?_
  obtain ⟨e, he, rfl⟩ := Multiset.mem_map.mp hr
  exact h.quantity e.1 e.2 (Finmap.lookup_eq_some_iff.mpr (Multiset.mem_of_mem_filter he))

end Bounded

end FlatOrders

/-! ## Products -/

namespace TrackedBook

variable {t : TrackedBook} {v w : ℚ}

/-- The levels of a product agree with its orders, which stand at prices and have sizes of a total
of at most `v`. -/
structure Sized (v : ℚ) (t : TrackedBook) : Prop where
  consistent : t.Consistent
  bounded : t.orders.flat.Bounded v
  priced : t.orders.flat.Priced

theorem Sized.mono (h : t.Sized v) (hle : v ≤ w) : t.Sized w :=
  ⟨h.consistent, h.bounded.mono hle, h.priced⟩

/-- By value, the levels of a side are the positive totals of the orders. -/
theorem Sized.mem_values (h : t.Sized v) (hv : v < 10 ^ 20) {s : Side} {q a : ℚ} :
    (q, a) ∈ (t.levels.side s).values ↔ a = t.orders.flat.total s q ∧ 0 < a :=
  h.consistent.mem_values_levels
    (OrderIndex.sumsExactly_of_bounded h.consistent.wellFormed h.bounded hv s q)

/-- The amounts of all levels of a side are part of the volume. -/
theorem Sized.sum_values_le (h : t.Sized v) (hv : v < 10 ^ 20) (s : Side) :
    ((t.levels.side s).values.map Prod.snd).sum ≤ v := by
  have hsnd : (t.levels.side s).values.map Prod.snd =
      ((t.levels.side s).values.map Prod.fst).map (t.orders.flat.total s) := by
    rw [List.map_map]
    exact List.map_congr_left fun e he => ((h.mem_values hv).mp he).1
  have hnodup : ((t.levels.side s).values.map Prod.fst).Nodup := by
    have hasc := Ladder.ascending_iff.mp (h.consistent.agrees s).ascending
    rw [Standings.values, List.map_map]
    exact List.pairwise_map.mpr (hasc.imp fun hlt => hlt.ne)
  rw [hsnd]
  exact h.bounded.sum_total_le s hnodup

/-- **The levels of a product are moderate** in whatever order they are listed. -/
theorem Sized.moderate_levels (h : t.Sized v) (hv : v < 10 ^ 20) (s : Side)
    {rungs : List (Decimal × Standing)} (hrungs : rungs.Perm (t.levels.side s).rungs) :
    Level.Moderate (Standings.levels rungs) := by
  have hvalue (r : Decimal × Standing) (hr : r ∈ rungs) :
      r.2.amount.toRat = t.orders.flat.total s r.1.toRat ∧ 0 < r.2.amount.toRat := by
    refine (h.mem_values hv).mp ?_
    exact List.mem_map.mpr ⟨r, hrungs.mem_iff.mp hr, rfl⟩
  refine ⟨List.forall_mem_map.mpr fun r hr => ?_, List.forall_mem_map.mpr fun r hr => ?_, ?_⟩
  · obtain ⟨hamount, hpos⟩ := hvalue r hr
    exact h.priced.of_total_pos (hamount ▸ hpos)
  · rw [(hvalue r hr).1]
    exact h.bounded.isQuantity_total s _
  · have htotal : Level.total (Standings.levels rungs) =
        ((t.levels.side s).values.map Prod.snd).sum := by
      rw [Level.total, Standings.levels, Standings.values, List.map_map, List.map_map]
      exact (hrungs.map _).sum_eq
    rw [htotal]
    exact (h.sum_values_le hv s).trans_lt hv

/-- A product has a state at every depth. -/
theorem Sized.exists_state (h : t.Sized v) (hv : v < 10 ^ 20) (depth : ℕ) :
    ∃ x, t.levels.state depth = .ok x ∧
      x.metrics.FiguresOf t.levels.bidLevels t.levels.askLevels LevelBook.imbalanceLevels := by
  have hbids := h.moderate_levels hv .buy (List.reverse_perm _)
  have hasks := h.moderate_levels hv .sell (List.Perm.refl _)
  obtain ⟨m, hm, hfigures⟩ := Metrics.exists_compute hbids hasks LevelBook.imbalanceLevels
  exact ⟨_, bind_eq_ok_iff.mpr ⟨m, hm, rfl⟩, hfigures⟩

/-- A snapshot of moderate size makes a product. -/
theorem exists_ofSnapshot_of_moderate [A : Arrangement] {s : Snapshot}
    (hprices : ∀ p ∈ s.prices, IsPrice p.toRat) (hsizes : ∀ a ∈ s.sizes, IsQuantity a.toRat)
    (hv : (s.sizes.map Decimal.toRat).sum < 10 ^ 20) :
    ∃ t, ofSnapshot s = .ok t ∧ t.Sized (s.sizes.map Decimal.toRat).sum := by
  have hbounded := FlatOrders.Bounded.ofSnapshot hsizes
  have hexact := OrderIndex.takesExactly_snapshot hbounded hv .empty
  obtain ⟨x, rows, hload, -⟩ := OrderIndex.load_refines s hexact
  obtain ⟨t, ht⟩ := exists_ofSnapshot_of_load hload
  have hflat : t.orders.flat = FlatOrders.ofSnapshot s := by
    rw [orders_ofSnapshot ht, OrderIndex.flat_ofSnapshot]
  exact ⟨t, ht, consistent_ofSnapshot ht, hflat ▸ hbounded, hflat ▸ .ofSnapshot hprices⟩

/-- A product takes every later diff of moderate size. -/
theorem Sized.exists_apply [A : Arrangement] (h : t.Sized v) {d : Diff}
    (hlater : t.levels.lastUpdateId < d.sequence)
    (hprices : ∀ p ∈ d.event.prices, IsPrice p.toRat)
    (hsizes : ∀ a ∈ d.event.sizes, IsQuantity a.toRat)
    (hv : v + (d.event.sizes.map Decimal.toRat).sum < 10 ^ 20) :
    ∃ t', t.apply d = .ok (t', true) ∧ t'.Sized (v + (d.event.sizes.map Decimal.toRat).sum) := by
  have hwf := h.consistent.wellFormed
  have hexact := OrderIndex.takesExactly_diff hwf h.bounded hsizes hv
  obtain ⟨y, rows, hstep, -, hflat, -⟩ := OrderIndex.apply_refines hwf d hexact
  obtain ⟨t', happly, rfl, -, hconsistent⟩ := h.consistent.exists_apply hlater hstep
  refine ⟨t', happly, hconsistent, ?_, ?_⟩
  · rw [hflat]
    exact h.bounded.apply d.side hsizes
  · rw [hflat]
    exact h.priced.apply d.side hprices

end TrackedBook

/-! ## Books -/

namespace Books

variable {b : Books} {v w : ℚ} {u : Update} {us us' : List Update}

/-- The products are bounded by the sizes that have come in. -/
def Sized (v : ℚ) (b : Books) : Prop := ∀ id, ∀ t ∈ b.find? id, t.Sized v

theorem Sized.empty : Books.empty.Sized 0 := fun _ _ h => nomatch h

theorem Sized.mono (h : b.Sized v) (hle : v ≤ w) : b.Sized w := fun id t ht =>
  (h id t ht).mono hle

theorem Sized.insert (h : b.Sized v) (id : String) {t : TrackedBook} (ht : t.Sized v) :
    Sized v ⟨b.entries.insert id t⟩ := by
  intro id' t' ht'
  rw [find?_insert] at ht'
  split_ifs at ht'
  · exact Option.some.inj ht' ▸ ht
  · exact h id' t' ht'

section Runs

variable [A : Arrangement]

/-- **An update of moderate size has a result**, and adds no more than its sizes. -/
theorem Sized.receive (h : b.Sized v) (hnonneg : 0 ≤ v) (hprices : ∀ p ∈ u.prices, IsPrice p.toRat)
    (hsizes : ∀ a ∈ u.sizes, IsQuantity a.toRat)
    (hv : v + (u.sizes.map Decimal.toRat).sum < 10 ^ 20) :
    ∃ b' applied, b.receive u = .ok (b', applied) ∧
      b'.Sized (v + (u.sizes.map Decimal.toRat).sum) := by
  have hgrow := h.mono (le_add_of_nonneg_right (Decimal.sum_toRat_nonneg hsizes))
  cases u with
  | diff d =>
    simp only [Books.receive, applyDiff]
    cases hfind : b.find? d.productId with
    | none => exact ⟨b, false, rfl, hgrow⟩
    | some t =>
      by_cases hstale : d.sequence ≤ t.levels.lastUpdateId
      · simp only [if_pos hstale]
        exact ⟨b, false, rfl, hgrow⟩
      · obtain ⟨t', happly, ht'⟩ :=
          (h d.productId t hfind).exists_apply (not_le.mp hstale) hprices hsizes hv
        simp only [if_neg hstale]
        exact ⟨_, true, bind_eq_ok_iff.mpr ⟨(t', true), happly, rfl⟩, hgrow.insert _ ht'⟩
  | snapshot s =>
    simp only [Books.receive, applySnapshot]
    split_ifs
    · exact ⟨b, false, rfl, hgrow⟩
    · obtain ⟨t, ht, hsized⟩ := TrackedBook.exists_ofSnapshot_of_moderate hprices hsizes
        ((le_add_of_nonneg_left hnonneg).trans_lt hv)
      exact ⟨_, true, bind_eq_ok_iff.mpr ⟨t, ht, rfl⟩,
        hgrow.insert _ (hsized.mono (le_add_of_nonneg_left hnonneg))⟩

/-- Updates of moderate size have a result, one after another. -/
theorem Sized.run (h : b.Sized v) (hnonneg : 0 ≤ v)
    (hprices : ∀ u ∈ us, ∀ p ∈ u.prices, IsPrice p.toRat)
    (hsizes : ∀ u ∈ us, ∀ a ∈ u.sizes, IsQuantity a.toRat)
    (hv : v + Update.totalSize us < 10 ^ 20) :
    ∃ b' news, b.run us = .ok (b', news) ∧ b'.Sized (v + Update.totalSize us) := by
  induction us generalizing b v with
  | nil => exact ⟨b, [], rfl, by simpa [Update.totalSize] using h⟩
  | cons u us ih =>
    obtain ⟨hprice, hprices⟩ := List.forall_mem_cons.mp hprices
    obtain ⟨hsize, hsizes⟩ := List.forall_mem_cons.mp hsizes
    rw [Update.totalSize_cons, ← add_assoc] at hv ⊢
    have hrest := Update.totalSize_nonneg hsizes
    have hfirst := Decimal.sum_toRat_nonneg hsize
    obtain ⟨b₁, applied, hreceive, h₁⟩ := h.receive hnonneg hprice hsize
      ((le_add_of_nonneg_right hrest).trans_lt hv)
    obtain ⟨b₂, news, hrun, h₂⟩ := ih h₁ (add_nonneg hnonneg hfirst) hprices hsizes hv
    exact ⟨b₂, _, bind_eq_ok_iff.mpr ⟨(b₁, applied), hreceive,
      bind_eq_ok_iff.mpr ⟨(b₂, news), hrun, rfl⟩⟩, h₂⟩

/-- **Nothing overflows.** Updates of the size that the exchange uses have a result, in whatever
order and of whatever products they come; and at any point every product has a state at every depth,
whose depths are the exact totals of all levels and which has every figure that there is something
to compute from. -/
theorem run_never_overflows (h : Update.Moderate us) (hpre : us' <+: us) :
    ∃ b news, empty.run us' = .ok (b, news) ∧
      ∀ id depth, ∃ state?, b.state? id depth = .ok state? ∧
        ∀ t ∈ b.find? id, ∃ x ∈ state?,
          x.metrics.FiguresOf t.levels.bidLevels t.levels.askLevels LevelBook.imbalanceLevels := by
  have h' := h.of_prefix hpre
  have hv : 0 + Update.totalSize us' < 10 ^ 20 := (zero_add _).trans_lt h'.total_lt
  obtain ⟨b, news, hrun, hsized⟩ := Sized.empty.run le_rfl h'.price h'.quantity hv
  refine ⟨b, news, hrun, fun id depth => ?_⟩
  unfold state?
  cases hfind : b.find? id with
  | none => exact ⟨none, rfl, nofun⟩
  | some t =>
    obtain ⟨x, hx, hfigures⟩ := (hsized id t hfind).exists_state hv depth
    refine ⟨some x, by simp only [hx]; rfl, ?_⟩
    rintro t' ⟨⟩
    exact ⟨x, rfl, hfigures⟩

end Runs

theorem run_never_overflows_samples :
    Update.Moderate Update.samples ∧
      ∃ b news, empty.run Update.samples = .ok (b, news) ∧
        ∀ id depth, ∃ state?, b.state? id depth = .ok state? ∧
          ∀ t ∈ b.find? id, ∃ x ∈ state?,
            x.metrics.FiguresOf t.levels.bidLevels t.levels.askLevels LevelBook.imbalanceLevels :=
  ⟨Update.moderate_samples, run_never_overflows Update.moderate_samples (List.prefix_refl _)⟩

end Books

end MarketFeed
