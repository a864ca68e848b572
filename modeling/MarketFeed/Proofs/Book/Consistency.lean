import MarketFeed.Book.Books
import MarketFeed.Proofs.Book.FlatOrders
import MarketFeed.Proofs.Book.Levels
import MarketFeed.Proofs.Decimal.Exact

/-!
# Orders and levels of a product

An event goes to the orders of a product first, and only the row that they answer goes to its
levels. Since a book that has seen a snapshot takes every row of a later update, orders and levels
do not part: at each price the level is the total of the orders.

## Main definitions

* `LevelBook.side`: the levels of a side
* `TrackedBook.Consistent`: the levels of a product agree with its orders

## Main results

* `TrackedBook.consistent_ofSnapshot`, `TrackedBook.Consistent.apply`: snapshots and later diffs
* `TrackedBook.Consistent.find?_levels`: the level at a price is the total of the orders there
* `TrackedBook.Consistent.values_levels_eq`: the same orders have the same levels
-/

namespace MarketFeed

/-- the rows of a side -/
def Rows.side (rows : Rows) : Side → List Row
  | .buy => rows.bids
  | .sell => rows.asks

theorem Rows.side_single (s s' : Side) (r : Row) :
    (Rows.single s r).side s' = if s = s' then [r] else [] := by
  cases s <;> cases s' <;> rfl

theorem Rows.side_none (s : Side) : Rows.none.side s = [] := by
  cases s <;> rfl

/-- the levels of a side -/
def LevelBook.side (b : LevelBook) : Side → Standings
  | .buy => b.bids
  | .sell => b.asks

namespace LevelBook

variable {b : LevelBook} {rows : Rows} {n : ℕ}

theorem side_load (s : Side) :
    (b.load rows n).side s = Standings.writeAll .empty (rows.side s) := by
  cases s <;> rfl

/-- A book that accepts an update writes its rows. -/
theorem apply_of_accepts (h : b.Accepts n) (rows : Rows) :
    ∃ b', b.apply rows n = (b', true) ∧ b'.initialized ∧ b'.lastUpdateId = n ∧
      ∀ s, b'.side s = (b.side s).writeAll (rows.side s) := by
  refine ⟨_, if_pos h, h.1, rfl, fun s => ?_⟩
  cases s <;> rfl

end LevelBook

namespace OrderIndex

variable [A : Arrangement] {x y : OrderIndex} {rows : Rows}

/-- A diff that touches nothing leaves the index and is answered without rows; any other is
answered with the size of the level that it touches, the orders there being listed anew. -/
theorem apply_eq_ok {d : Diff} (h : x.apply d = .ok (y, rows)) :
    (y = x ∧ rows = .none) ∨ ∃ o p amount, (x.side d.side).apply d.event = .ok (o, some p) ∧
      (listAnew d p o).amount p = .ok amount ∧ y = x.withSide d.side (listAnew d p o) ∧
      rows = .single d.side ⟨p, amount, d.sequence⟩ := by
  obtain ⟨⟨o, touched⟩, happly, h⟩ := bind_eq_ok_iff.mp h
  cases touched with
  | none =>
    cases h
    rcases Orders.apply_cases happly with ⟨rfl, -⟩ | ⟨p, id, hp, -⟩
    · exact .inl ⟨withSide_self x d.side, rfl⟩
    · cases hp
  | some p =>
    obtain ⟨amount, hamount, h⟩ := bind_eq_ok_iff.mp h
    cases h
    exact .inr ⟨o, p, amount, happly, hamount, rfl, rfl⟩

theorem load_eq_ok {s : Snapshot} (h : load s = .ok (x, rows)) :
    x = ofSnapshot s ∧
      List.Forall₂ (Orders.IsRowOf s.sequence) (x.side .buy).descending (rows.side .buy) ∧
      List.Forall₂ (Orders.IsRowOf s.sequence) (x.side .sell).ascending (rows.side .sell) := by
  obtain ⟨bids, hbids, h⟩ := bind_eq_ok_iff.mp h
  obtain ⟨asks, hasks, h⟩ := bind_eq_ok_iff.mp h
  cases h
  exact ⟨rfl, Orders.rows_eq_ok_iff.mp hbids, Orders.rows_eq_ok_iff.mp hasks⟩

end OrderIndex

namespace TrackedBook

variable {t t' : TrackedBook}

/-- The levels of a product that has seen a snapshot agree with its orders. -/
structure Consistent (t : TrackedBook) : Prop where
  initialized : t.levels.initialized
  agrees : ∀ s, Standings.Agrees t.levels.lastUpdateId (t.orders.side s) (t.levels.side s)

theorem Consistent.wellFormed (h : t.Consistent) : t.orders.WellFormed :=
  fun s => (h.agrees s).wellFormed

section Updates

variable [A : Arrangement]

theorem ofSnapshot_eq_ok {s : Snapshot} (h : ofSnapshot s = .ok t) :
    ∃ rows, OrderIndex.load s = .ok (t.orders, rows) ∧
      t.levels = (LevelBook.new s.productId).load rows s.sequence := by
  obtain ⟨⟨x, rows⟩, hload, h⟩ := bind_eq_ok_iff.mp h
  cases h
  exact ⟨rows, hload, rfl⟩

theorem exists_ofSnapshot_of_load {s : Snapshot} {x : OrderIndex} {rows : Rows}
    (h : OrderIndex.load s = .ok (x, rows)) : ∃ t, ofSnapshot s = .ok t :=
  ⟨_, bind_eq_ok_iff.mpr ⟨(x, rows), h, rfl⟩⟩

theorem lastUpdateId_ofSnapshot {s : Snapshot} (h : ofSnapshot s = .ok t) :
    t.levels.lastUpdateId = s.sequence := by
  obtain ⟨rows, -, hlevels⟩ := ofSnapshot_eq_ok h
  rw [hlevels, LevelBook.load]

theorem orders_ofSnapshot {s : Snapshot} (h : ofSnapshot s = .ok t) :
    t.orders = OrderIndex.ofSnapshot s := by
  obtain ⟨rows, hload, -⟩ := ofSnapshot_eq_ok h
  exact (OrderIndex.load_eq_ok hload).1

theorem consistent_ofSnapshot {s : Snapshot} (h : ofSnapshot s = .ok t) : t.Consistent := by
  have hwf : t.orders.WellFormed := orders_ofSnapshot h ▸ OrderIndex.WellFormed.ofSnapshot s
  have hlast := lastUpdateId_ofSnapshot h
  obtain ⟨rows, hload, hlevels⟩ := ofSnapshot_eq_ok h
  obtain ⟨-, hbids, hasks⟩ := OrderIndex.load_eq_ok hload
  refine ⟨by rw [hlevels, LevelBook.load], fun side => ?_⟩
  rw [hlast, hlevels, LevelBook.side_load]
  have hasc := (hwf side).ascending
  rw [Ladder.ascending_iff] at hasc
  cases side with
  | buy =>
    refine Standings.Agrees.of_rows (hwf .buy) (fun r => List.mem_reverse) ?_ hbids
    exact List.pairwise_reverse.mpr (hasc.imp fun hlt => hlt.ne')
  | sell =>
    exact Standings.Agrees.of_rows (hwf .sell) (fun r => Iff.rfl) (hasc.imp fun hlt => hlt.ne)
      hasks

/-- A consistent product takes every later diff: its orders and its levels go on together. -/
theorem Consistent.apply (h : t.Consistent) {d : Diff} {applied : Bool}
    (hlater : t.levels.lastUpdateId < d.sequence) (happly : t.apply d = .ok (t', applied)) :
    applied = true ∧ t'.levels.lastUpdateId = d.sequence ∧ t'.Consistent := by
  obtain ⟨⟨y, rows⟩, hstep, happly⟩ := bind_eq_ok_iff.mp happly
  obtain ⟨levels, hlevels, hinit, hlast, hwritten⟩ :=
    LevelBook.apply_of_accepts ⟨h.initialized, hlater⟩ rows
  simp only [hlevels] at happly
  cases happly
  refine ⟨rfl, hlast, hinit, fun s => ?_⟩
  simp only [hlast, hwritten]
  have hside := h.agrees s
  rcases OrderIndex.apply_eq_ok hstep with
    ⟨rfl, rfl⟩ | ⟨o, p, amount, horders, hamount, rfl, rfl⟩
  · rw [Rows.side_none]
    exact hside.mono hlater.le
  · rw [Rows.side_single, OrderIndex.side_withSide]
    by_cases hs : d.side = s
    · subst hs
      rw [if_pos rfl, if_pos rfl]
      exact hside.apply horders hamount hlater.le
    · rw [if_neg hs, if_neg hs]
      exact hside.mono hlater.le

/-- A consistent product takes every later diff that its orders take. -/
theorem Consistent.exists_apply (h : t.Consistent) {d : Diff} {y : OrderIndex} {rows : Rows}
    (hlater : t.levels.lastUpdateId < d.sequence) (hstep : t.orders.apply d = .ok (y, rows)) :
    ∃ t', t.apply d = .ok (t', true) ∧ t'.orders = y ∧ t'.levels.lastUpdateId = d.sequence ∧
      t'.Consistent := by
  have happly : t.apply d = .ok ({ t with
      levels := (t.levels.apply rows d.sequence).1
      orders := y }, (t.levels.apply rows d.sequence).2) :=
    bind_eq_ok_iff.mpr ⟨(y, rows), hstep, rfl⟩
  obtain ⟨htrue, hlast, hconsistent⟩ := h.apply hlater happly
  exact ⟨_, htrue ▸ happly, rfl, hlast, hconsistent⟩

end Updates

/-- At each price value stands the total of the orders there, if it is positive. The total is that
of the flat map, unless it is rounded. -/
theorem Consistent.exists_total (h : t.Consistent) (s : Side) (q : ℚ) :
    ∃ total, Decimal.sum ((t.orders.side s).levelAt q).values = .ok total ∧
      ((t.levels.side s).rungAt q).map Standing.amount =
        (if total.toRat ≤ 0 then none else some total) ∧
      (Decimal.SumsExactly .zero ((t.orders.side s).levelAt q).values →
        total.toRat = t.orders.flat.total s q) := by
  obtain ⟨total, htotal, hrung⟩ := (h.agrees s).total q
  refine ⟨total, htotal, hrung, fun hexact => ?_⟩
  obtain ⟨sum, hsum, hval⟩ := Decimal.sum_of_sumsExactly hexact
  obtain rfl := Except.ok.inj (htotal.symm.trans hsum)
  rw [hval, OrderIndex.total_flat h.wellFormed]

/-- The level at a price is the total of the orders there, if this is positive. -/
theorem Consistent.find?_levels (h : t.Consistent) (s : Side) (p : Decimal) :
    ∃ total, (t.orders.side s).amount p = .ok total ∧
      ((t.levels.side s).find? p).map Standing.amount =
        (if .zero < total then some total else none) ∧
      (Decimal.SumsExactly .zero ((t.orders.side s).level p).values →
        total.toRat = t.orders.flat.total s p.toRat) := by
  obtain ⟨total, htotal, hrung, hexact⟩ := h.exists_total s p.toRat
  rw [Orders.amount_eq_sum_levelAt, Ladder.find?_eq_rungAt, Orders.level_eq_levelAt]
  refine ⟨total, htotal, ?_, hexact⟩
  have hpos : .zero < total ↔ ¬ total.toRat ≤ 0 := by
    rw [Decimal.lt_iff, Decimal.toRat_zero, not_le]
  simp only [hrung, hpos, ite_not]

/-- By value, the levels of a side are the positive totals of the flat map of its orders, unless a
total is rounded. -/
theorem Consistent.mem_values_levels (h : t.Consistent) {s : Side} {q v : ℚ}
    (hexact : Decimal.SumsExactly .zero ((t.orders.side s).levelAt q).values) :
    (q, v) ∈ (t.levels.side s).values ↔ v = t.orders.flat.total s q ∧ 0 < v := by
  obtain ⟨total, -, hrung, hval⟩ := h.exists_total s q
  have hmem : (q, v) ∈ (t.levels.side s).values ↔
      ∃ a ∈ ((t.levels.side s).rungAt q).map Standing.amount, a.toRat = v := by
    rw [Standings.mem_values_iff (h.agrees s).ascending]
    simp
  rw [hmem, hrung, ← hval hexact]
  split_ifs with hle
  · refine ⟨nofun, ?_⟩
    rintro ⟨rfl, hpos⟩
    exact absurd hle (not_le.mpr hpos)
  · simp only [Option.mem_some, exists_eq_left', eq_comm (a := v)]
    exact ⟨fun heq => ⟨heq, heq ▸ not_le.mp hle⟩, fun hv => hv.1⟩

/-- Products with the same orders by value have the same levels by value, unless a total is
rounded. -/
theorem Consistent.values_levels_eq (h : t.Consistent) (h' : t'.Consistent)
    (hflat : t.orders.flat = t'.orders.flat) (s : Side)
    (hexact : ∀ q, Decimal.SumsExactly .zero ((t.orders.side s).levelAt q).values)
    (hexact' : ∀ q, Decimal.SumsExactly .zero ((t'.orders.side s).levelAt q).values) :
    (t.levels.side s).values = (t'.levels.side s).values := by
  refine Standings.values_eq_of_mem_iff (h.agrees s).ascending (h'.agrees s).ascending ?_
  rintro ⟨q, v⟩
  rw [h.mem_values_levels (hexact q), h'.mem_values_levels (hexact' q), hflat]

end TrackedBook

end MarketFeed
