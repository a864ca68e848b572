import MarketFeed.Proofs.Book.FlatOrders
import MarketFeed.Proofs.Decimal.Exact

/-!
# Replaying updates on resting orders

As long as no sum and no difference is rounded, an index of orders goes through a list of updates
in step with its flat map, on which a snapshot starts over and an event inserts, replaces or
deletes one key. What the index answers is told by the flat map alone.

## Main definitions

* `Update`: a diff or a snapshot
* `FlatOrders.apply`, `FlatOrders.touched`: what an event does to a flat map
* `FlatOrders.Answers`: the rows that an update is to be answered with
* `OrderIndex.trace`: the indices and the rows after each of some updates
* `OrderIndex.RunsExactly`: no sum and no difference on the way is rounded

## Main results

* `OrderIndex.apply_refines`, `OrderIndex.load_refines`: a single update
* `OrderIndex.trace_follows_flat`: a list of updates
-/

namespace MarketFeed

/-- A message that updates the orders of a product. -/
inductive Update
  | diff (d : Diff)
  | snapshot (s : Snapshot)

namespace Update

/-- a snapshot with two bids at one price, a bid below and an ask -/
def sampleSnapshot : Snapshot where
  productId := "BTC-USD"
  timestamp := default
  sequence := 7
  bids := [
    ⟨.ofNat 100, ⟨15, 1, by decide, by decide⟩, "x"⟩,
    ⟨⟨1000, 1, by decide, by decide⟩, .ofNat 6, "y"⟩,
    ⟨.ofNat 99, .ofNat 3, "x"⟩]
  asks := [⟨.ofNat 101, .ofNat 4, "z"⟩]

/-- later events of the product: an order opens, a maker is traded off in two steps, another leaves
and one is resized -/
def sampleDiffs : List Diff :=
  [(8, .sell, .opened "w" (.ofNat 101) (.ofNat 5)),
    (9, .buy, .traded 1 "x" "t" ⟨10000, 2, by decide, by decide⟩ .one),
    (10, .buy, .traded 2 "x" "t" (.ofNat 100) (.ofNat 8)),
    (11, .buy, .closed "y" (.ofNat 100) none "canceled"),
    (12, .buy, .resized "x" (some (.ofNat 99)) none (some (.ofNat 7)))].map
    fun (sequence, side, event) => ⟨⟨"BTC-USD", sequence, default, side⟩, event⟩

/-- a snapshot of what the first three of them lead to, in another order and spelling -/
def sampleListing : Snapshot where
  productId := "BTC-USD"
  timestamp := default
  sequence := 10
  bids := [
    ⟨.ofNat 99, ⟨30, 1, by decide, by decide⟩, "x"⟩,
    ⟨.ofNat 100, .ofNat 6, "y"⟩,
    ⟨.ofNat 100, .zero, "x"⟩]
  asks := [⟨.ofNat 101, .ofNat 5, "w"⟩, ⟨.ofNat 101, .ofNat 4, "z"⟩]

/-- the snapshot and the events after it -/
def samples : List Update := .snapshot sampleSnapshot :: sampleDiffs.map .diff

end Update

/-! ## The flat map -/

namespace FlatOrders

/-- What an event does to the orders of a side: an opened order is set, a closed one is deleted, a
resized one gets its new size and a maker loses what was traded, down to zero, if they are there. -/
def apply (m : FlatOrders) (side : Side) : Event → FlatOrders
  | .opened id price remaining => m.insert ⟨side, price.toRat, id⟩ remaining.toRat
  | .closed id price _ _ => m.erase ⟨side, price.toRat, id⟩
  | .resized id (some price) _ (some size) =>
    if ⟨side, price.toRat, id⟩ ∈ m then m.insert ⟨side, price.toRat, id⟩ size.toRat else m
  | .resized .. => m
  | .traded _ id _ price size =>
    match m.lookup ⟨side, price.toRat, id⟩ with
    | some v => m.insert ⟨side, price.toRat, id⟩ (max (v - size.toRat) 0)
    | none => m

/-- The price value at which an event touches the orders of a side: that of an opened order, and
that of any other order which is there. -/
def touched (m : FlatOrders) (side : Side) : Event → Option ℚ
  | .opened _ price _ => some price.toRat
  | .closed id price _ _ => if ⟨side, price.toRat, id⟩ ∈ m then some price.toRat else none
  | .resized id (some price) _ (some _) =>
    if ⟨side, price.toRat, id⟩ ∈ m then some price.toRat else none
  | .resized .. => none
  | .traded _ id _ price _ => if ⟨side, price.toRat, id⟩ ∈ m then some price.toRat else none

theorem erase_of_notMem {m : FlatOrders} {k : OrderKey} (h : k ∉ m) : m.erase k = m := by
  refine Finmap.ext_lookup fun k' => ?_
  by_cases hk : k' = k
  · rw [hk, Finmap.lookup_erase, Finmap.lookup_eq_none.mpr h]
  · rw [Finmap.lookup_erase_ne hk]

/-- the map after an update -/
def step (m : FlatOrders) : Update → FlatOrders
  | .diff d => m.apply d.side d.event
  | .snapshot s => ofSnapshot s

/-- Rows tell the levels of a side of a snapshot: one row for each price value among its orders,
with the total size there and the sequence of the snapshot. -/
structure Lists (m : FlatOrders) (side : Side) (sequence : ℕ) (orders : List RestingOrder)
    (rows : List Row) : Prop where
  price_iff : ∀ q, (∃ r ∈ rows, r.price.toRat = q) ↔ ∃ o ∈ orders, o.price.toRat = q
  amount : ∀ r ∈ rows, r.amount.toRat = m.total side r.price.toRat
  updateId : ∀ r ∈ rows, r.updateId = sequence

/-- What an update is answered with: a snapshot with the rows of all levels, falling bids and rising
asks; a diff with no row if it touches nothing, else with the row of the level that it touches. -/
def Answers (m : FlatOrders) : Update → Rows → Prop
  | .snapshot s, rows =>
    (rows.bids.Pairwise (fun r r' => r'.price < r.price) ∧
      Lists (ofSnapshot s) .buy s.sequence s.bids rows.bids) ∧
    (rows.asks.Pairwise (fun r r' => r.price < r'.price) ∧
      Lists (ofSnapshot s) .sell s.sequence s.asks rows.asks)
  | .diff d, rows =>
    match m.touched d.side d.event with
    | none => rows = .none
    | some q => ∃ r, rows = .single d.side r ∧ r.price.toRat = q ∧
        r.amount.toRat = (m.apply d.side d.event).total d.side q ∧ r.updateId = d.sequence

/-- The indices and rows of a trace belong to the maps that the updates lead to: each index has the
map as its flat map and as many orders as the map has keys, and gave the right answer. -/
def Follows : FlatOrders → List Update → List (OrderIndex × Rows) → Prop
  | _, [], [] => True
  | m, u :: us, (x, rows) :: steps =>
    x.flat = m.step u ∧ x.count = (m.step u).keys.card ∧ m.Answers u rows ∧
      Follows (m.step u) us steps
  | _, _, _ => False

end FlatOrders

/-! ## Exactness -/

/-- The size that a trade leaves is not rounded. -/
def Orders.SubtractsExactly (o : Orders) : Event → Prop
  | .traded _ id _ price traded => ∀ size ∈ o.size? price id,
      ∃ rest ∈ size.sub traded, rest.toRat = size.toRat - traded.toRat
  | _ => True

namespace OrderIndex

variable [A : Arrangement]

/-- The size of the level that a diff touches is not rounded. -/
def TotalsExactly (x : OrderIndex) (d : Diff) : Prop :=
  ∀ step ∈ ((x.side d.side).apply d.event).toOption, ∀ p ∈ step.2,
    Decimal.SumsExactly .zero ((listAnew d p step.1).level p).values

/-- what an update leads to, and its answer -/
def take (x : OrderIndex) : Update → Except Overflow (OrderIndex × Rows)
  | .diff d => x.apply d
  | .snapshot s => load s

/-- No sum and no difference that an update asks for is rounded. -/
def TakesExactly (x : OrderIndex) : Update → Prop
  | .diff d => (x.side d.side).SubtractsExactly d.event ∧ x.TotalsExactly d
  | .snapshot s => (∀ r ∈ (ofSnapshot s).bids.rungs, Decimal.SumsExactly .zero r.2.values) ∧
      ∀ r ∈ (ofSnapshot s).asks.rungs, Decimal.SumsExactly .zero r.2.values

/-- the indices after each of some updates, with the rows that answered it -/
def trace : OrderIndex → List Update → Except Overflow (List (OrderIndex × Rows))
  | _, [] => .ok []
  | x, u :: us => do
    let (y, rows) ← x.take u
    return (y, rows) :: (← y.trace us)

/-- No sum and no difference on the way through some updates is rounded. -/
def RunsExactly : OrderIndex → List Update → Prop
  | _, [] => True
  | x, u :: us => x.TakesExactly u ∧ ∃ step ∈ (x.take u).toOption, step.1.RunsExactly us

end OrderIndex

instance (o : Orders) : DecidablePred o.SubtractsExactly
  | .traded _ id _ price traded => inferInstanceAs (Decidable (∀ size ∈ o.size? price id,
      ∃ rest ∈ size.sub traded, rest.toRat = size.toRat - traded.toRat))
  | .opened .. | .closed .. | .resized .. => inferInstanceAs (Decidable True)

section Decidable

variable [A : Arrangement]

instance (x : OrderIndex) : DecidablePred x.TotalsExactly := fun d =>
  inferInstanceAs (Decidable (∀ step ∈ ((x.side d.side).apply d.event).toOption, ∀ p ∈ step.2,
    Decimal.SumsExactly .zero ((OrderIndex.listAnew d p step.1).level p).values))

instance (x : OrderIndex) : DecidablePred x.TakesExactly
  | .diff d => inferInstanceAs (Decidable (Orders.SubtractsExactly _ d.event ∧ _))
  | .snapshot _ => inferInstanceAs (Decidable (_ ∧ _))

instance OrderIndex.RunsExactly.decidable : ∀ (x : OrderIndex) us, Decidable (x.RunsExactly us)
  | _, [] => inferInstanceAs (Decidable True)
  | x, u :: us =>
    have (y : OrderIndex) : Decidable (y.RunsExactly us) := RunsExactly.decidable y us
    inferInstanceAs (Decidable (x.TakesExactly u ∧
      ∃ step ∈ (x.take u).toOption, step.1.RunsExactly us))

end Decidable

/-! ## Events -/

namespace OrderIndex

variable {x : OrderIndex}

theorem mem_flat_iff (h : x.WellFormed) (s : Side) (p : Decimal) (id : String) :
    (⟨s, p.toRat, id⟩ : OrderKey) ∈ x.flat ↔ ((x.side s).size? p id).isSome := by
  rw [← Finmap.lookup_isSome, lookup_flat_of_price h, Option.isSome_map]

/-- An event that touches nothing, on a side and on the flat map. -/
theorem refines_untouched {s : Side} {e : Event}
    (happly : (x.side s).apply e = .ok (x.side s, none))
    (hflat : x.flat.apply s e = x.flat) (htouched : x.flat.touched s e = none) :
    ∃ o touched, (x.side s).apply e = .ok (o, touched) ∧
      (x.withSide s o).flat = x.flat.apply s e ∧
      touched.map Decimal.toRat = x.flat.touched s e :=
  ⟨x.side s, none, happly, by rw [withSide_self, hflat], by rw [htouched, Option.map_none]⟩

/-- An event does to a side what it does to the flat map, and touches it at the same price. Only a
trade computes a size, and exactness is needed for nothing else. -/
theorem side_apply_refines (h : x.WellFormed) (s : Side) (e : Event)
    (hexact : (x.side s).SubtractsExactly e) :
    ∃ o touched, (x.side s).apply e = .ok (o, touched) ∧
      (x.withSide s o).flat = x.flat.apply s e ∧
      touched.map Decimal.toRat = x.flat.touched s e := by
  have hmem := mem_flat_iff h s
  have hlookup := lookup_flat_of_price h s
  cases e with
  | opened id price remaining =>
    exact ⟨_, _, rfl, flat_set h s price id remaining, rfl⟩
  | closed id price remaining reason =>
    cases hsize : (x.side s).size? price id with
    | none =>
      have hnot : (⟨s, price.toRat, id⟩ : OrderKey) ∉ x.flat := by simp [hmem, hsize]
      exact refines_untouched (by simp only [Orders.apply, hsize])
        (FlatOrders.erase_of_notMem hnot) (if_neg hnot)
    | some size =>
      have hin : (⟨s, price.toRat, id⟩ : OrderKey) ∈ x.flat := by simp [hmem, hsize]
      refine ⟨_, some price, by simp only [Orders.apply, hsize], flat_remove h s price id, ?_⟩
      rw [FlatOrders.touched, if_pos hin, Option.map_some]
  | resized id price old new =>
    rcases price with _ | price
    · exact refines_untouched rfl rfl rfl
    rcases new with _ | new
    · exact refines_untouched rfl rfl rfl
    cases hsize : (x.side s).size? price id with
    | none =>
      have hnot : (⟨s, price.toRat, id⟩ : OrderKey) ∉ x.flat := by simp [hmem, hsize]
      exact refines_untouched (by simp only [Orders.apply, hsize]) (if_neg hnot) (if_neg hnot)
    | some size =>
      have hin : (⟨s, price.toRat, id⟩ : OrderKey) ∈ x.flat := by simp [hmem, hsize]
      refine ⟨(x.side s).set price id new, some price, by simp only [Orders.apply, hsize], ?_, ?_⟩
      · rw [flat_set h, FlatOrders.apply, if_pos hin]
      · rw [FlatOrders.touched, if_pos hin, Option.map_some]
  | traded trade id taker price traded =>
    cases hsize : (x.side s).size? price id with
    | none =>
      have hnot : (⟨s, price.toRat, id⟩ : OrderKey) ∉ x.flat := by simp [hmem, hsize]
      refine refines_untouched (by simp only [Orders.apply, hsize]) ?_ (if_neg hnot)
      rw [FlatOrders.apply, hlookup, hsize, Option.map_none]
    | some size =>
      have hin : (⟨s, price.toRat, id⟩ : OrderKey) ∈ x.flat := by simp [hmem, hsize]
      obtain ⟨rest, hsub, hval⟩ := hexact size hsize
      refine ⟨(x.side s).set price id (rest.max .zero), some price, ?_, ?_, ?_⟩
      · simp only [Orders.apply, hsize, Decimal.minus, Option.mem_def.mp hsub, orOverflow]
        rfl
      · rw [flat_set h, FlatOrders.apply, hlookup, hsize, Option.map_some, Decimal.toRat_max,
          Decimal.toRat_zero, hval]
      · rw [FlatOrders.touched, if_pos hin, Option.map_some]

/-- A diff leads an index to where it leads its flat map, and is answered as the map tells. -/
theorem apply_refines [A : Arrangement] (h : x.WellFormed) (d : Diff)
    (hexact : x.TakesExactly (.diff d)) :
    ∃ y rows, x.apply d = .ok (y, rows) ∧ y.WellFormed ∧ y.flat = x.flat.step (.diff d) ∧
      x.flat.Answers (.diff d) rows := by
  obtain ⟨hsub, hsum⟩ := hexact
  obtain ⟨o, touched, happly, hflat, htouched⟩ := side_apply_refines h d.side d.event hsub
  have hy : (x.withSide d.side o).WellFormed := h.withSide d.side ((h d.side).apply happly)
  cases touched with
  | none =>
    refine ⟨x.withSide d.side o, .none, ?_, hy, hflat, ?_⟩
    · exact bind_eq_ok_iff.mpr ⟨_, happly, rfl⟩
    · rw [FlatOrders.Answers, ← htouched, Option.map_none]
  | some p =>
    obtain ⟨amount, hamount, hval⟩ :=
      Decimal.sum_of_sumsExactly (hsum (o, some p) (by rw [happly]; rfl) p rfl)
    have halike : (x.withSide d.side (listAnew d p o)).Alike (x.withSide d.side o) :=
      (Alike.refl x).withSide d.side (alike_listAnew d p o)
    have hlisted := halike.wellFormed hy
    rw [← halike.flat_eq hy] at hflat
    refine ⟨x.withSide d.side (listAnew d p o), .single d.side ⟨p, amount, d.sequence⟩, ?_,
      hlisted, hflat, ?_⟩
    · exact bind_eq_ok_iff.mpr ⟨_, happly, bind_eq_ok_iff.mpr ⟨amount, hamount, rfl⟩⟩
    · rw [FlatOrders.Answers, ← htouched]
      refine ⟨_, rfl, rfl, ?_, rfl⟩
      rw [hval, ← hflat, total_flat hlisted, side_withSide, if_pos rfl, Orders.level_eq_levelAt]

/-! ## Snapshots -/

/-- Rows of the rungs of a side list the levels of the flat map. -/
theorem lists_of_rows (h : x.WellFormed) {s : Side} {sequence : ℕ} {orders : List RestingOrder}
    {rungs : List (Decimal × Table Decimal)} {rows : List Row}
    (hside : (x.side s).Alike (Orders.ofList orders))
    (hrungs : ∀ r, r ∈ rungs ↔ r ∈ (x.side s).rungs)
    (hexact : ∀ r ∈ (x.side s).rungs, Decimal.SumsExactly .zero r.2.values)
    (hrows : List.Forall₂ (Orders.IsRowOf sequence) rungs rows) :
    x.flat.Lists s sequence orders rows := by
  refine ⟨fun q => ?_, fun row hrow => ?_, fun row hrow => ?_⟩
  · have hprices : (∃ p ∈ rows.map Row.price, p.toRat = q) ↔
        ∃ p ∈ rungs.map Prod.fst, p.toRat = q := by rw [Orders.prices_of_isRowOf hrows]
    rw [← Orders.exists_rung_ofList_iff, ← hside.exists_rung_iff]
    simpa [hrungs] using hprices
  · obtain ⟨r, hr, hprice, hamount, -⟩ := Orders.exists_rung_of_mem_rows hrows hrow
    replace hr := (hrungs r).mp hr
    obtain ⟨total, htotal, hval⟩ := Decimal.sum_of_sumsExactly (hexact r hr)
    rw [hamount, Except.ok.injEq] at htotal
    rw [htotal, hval, total_flat h, hprice, (h s).levelAt_rung hr]
  · obtain ⟨r, -, hrow⟩ := Orders.exists_rung_of_mem_rows hrows hrow
    exact hrow.updateId

/-- Rungs whose sizes add up exactly have rows. -/
theorem exists_rows (sequence : ℕ) {rungs : List (Decimal × Table Decimal)}
    (hexact : ∀ r ∈ rungs, Decimal.SumsExactly .zero r.2.values) :
    ∃ rows, Orders.rows sequence rungs = .ok rows := by
  simp only [Orders.rows_eq_ok_iff]
  induction rungs with
  | nil => exact ⟨[], .nil⟩
  | cons r rungs ih =>
    obtain ⟨rows, hrows⟩ := ih fun r' hr' => hexact r' (List.mem_cons_of_mem _ hr')
    obtain ⟨total, htotal, -⟩ := Decimal.sum_of_sumsExactly (hexact r List.mem_cons_self)
    exact ⟨⟨r.1, total, sequence⟩ :: rows, .cons ⟨rfl, htotal, rfl⟩ hrows⟩

section Updates

variable [A : Arrangement]

/-- A snapshot starts over with its orders, and is answered with the rows of all levels. -/
theorem load_refines (s : Snapshot) (hexact : x.TakesExactly (.snapshot s)) :
    ∃ y rows, load s = .ok (y, rows) ∧ y.WellFormed ∧ y.flat = x.flat.step (.snapshot s) ∧
      x.flat.Answers (.snapshot s) rows := by
  have hwf := WellFormed.ofSnapshot s
  obtain ⟨hbuy, hsell⟩ := hexact
  have hmem : ∀ r, r ∈ (ofSnapshot s).bids.descending ↔ r ∈ (ofSnapshot s).bids.rungs :=
    fun r => List.mem_reverse
  obtain ⟨bids, hbids⟩ := exists_rows s.sequence fun r hr => hbuy r ((hmem r).mp hr)
  obtain ⟨asks, hasks⟩ := exists_rows s.sequence hsell
  refine ⟨ofSnapshot s, ⟨bids, asks⟩, ?_, hwf, flat_ofSnapshot s, ?_⟩
  · exact bind_eq_ok_iff.mpr ⟨bids, hbids, bind_eq_ok_iff.mpr ⟨asks, hasks, rfl⟩⟩
  · rw [Orders.rows_eq_ok_iff] at hbids hasks
    rw [FlatOrders.Answers, ← flat_ofSnapshot]
    refine ⟨⟨?_, lists_of_rows hwf (alike_ofSnapshot s .buy) hmem hbuy hbids⟩,
      ?_, lists_of_rows hwf (alike_ofSnapshot s .sell) (fun _ => Iff.rfl) hsell hasks⟩
    · rw [← List.pairwise_map (f := Row.price) (R := fun p p' => p' < p),
        Orders.prices_of_isRowOf hbids, Ladder.descending, List.map_reverse, List.pairwise_reverse,
        List.pairwise_map]
      exact (hwf .buy).ascending
    · rw [← List.pairwise_map (f := Row.price) (R := fun p p' => p < p'),
        Orders.prices_of_isRowOf hasks, List.pairwise_map]
      exact (hwf .sell).ascending

/-! ## Lists of updates -/

theorem take_refines (h : x.WellFormed) (u : Update) (hexact : x.TakesExactly u) :
    ∃ y rows, x.take u = .ok (y, rows) ∧ y.WellFormed ∧ y.flat = x.flat.step u ∧
      x.flat.Answers u rows := by
  cases u with
  | diff d => exact apply_refines h d hexact
  | snapshot s => exact load_refines s hexact

/-- From any well-formed index a trace follows the flat map. -/
theorem trace_follows (h : x.WellFormed) {us : List Update} (hexact : x.RunsExactly us) :
    ∃ steps, x.trace us = .ok steps ∧ x.flat.Follows us steps := by
  induction us generalizing x with
  | nil => exact ⟨[], rfl, trivial⟩
  | cons u us ih =>
    obtain ⟨hu, step, hstep, hus⟩ := hexact
    obtain ⟨y, rows, htake, hy, hflat, hanswers⟩ := take_refines h u hu
    obtain rfl : step = (y, rows) := Except.ok.inj ((mem_toOption_iff.mp hstep).symm.trans htake)
    obtain ⟨steps, hsteps, hfollows⟩ := ih hy hus
    refine ⟨(y, rows) :: steps, ?_, hflat, ?_, hanswers, hflat ▸ hfollows⟩
    · exact bind_eq_ok_iff.mpr ⟨(y, rows), htake, bind_eq_ok_iff.mpr ⟨steps, hsteps, rfl⟩⟩
    · rw [← hflat, card_keys_flat hy]

/-- **The index of a product's orders is a flat map.** Beginning without orders, and as long as no
sum and no difference is rounded, every update leads the index to where it leads the flat map, and
is answered as the map tells. -/
theorem trace_follows_flat {us : List Update} (hexact : OrderIndex.empty.RunsExactly us) :
    ∃ steps, OrderIndex.empty.trace us = .ok steps ∧ FlatOrders.Follows ∅ us steps :=
  flat_empty ▸ trace_follows WellFormed.empty hexact

end Updates

/-- The sample updates are replayed exactly, among them a trade of more than its maker has left and
prices of one value in different spellings. -/
theorem trace_follows_flat_samples :
    OrderIndex.empty.RunsExactly Update.samples ∧
      ∃ steps, OrderIndex.empty.trace Update.samples = .ok steps ∧
        FlatOrders.Follows ∅ Update.samples steps :=
  ⟨by decide +kernel, trace_follows_flat (by decide +kernel)⟩

end OrderIndex

end MarketFeed
