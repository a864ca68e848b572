import MarketFeed.Proofs.Book.ByValue
import MarketFeed.Proofs.Book.Volume

/-!
# Sums that do not depend on the order

Where the sum of the sizes at a price is the same in whatever order they are added up, the level
there is the same by value however the orders are listed. So two arrangements go through a snapshot
or a diff side by side: their orders are alike, the rows that follow have the same values, and the
books of a product stay the same.

Sums that are not rounded do not depend on the order. Those of quantities up to a total of
`10 ^ 20` are none that are rounded.

## Main definitions

* `Table.SumsFreely`: the sizes have one sum, in whatever order they are added up
* `OrderIndex.SumsFreely`, `Snapshot.SumsFreely`: so do the orders at each price
* `Snapshot.untimed`, `TrackedBook.untimed`: without the time of the response
* `TrackedBook.Alike`: the same orders, listed in any order, and the same levels by value

## Main results

* `Table.SumsFreely.of_exact`, `Table.SumsFreely.of_isQuantity`: sums that are not rounded
* `OrderIndex.sumsFreely_of_bounded`, `Snapshot.sumsFreely_of_isQuantity`: sizes of a bounded total
* `TrackedBook.sameOutcome_ofSnapshot`: books of a snapshot under two arrangements
* `TrackedBook.Alike.apply`: a diff under two arrangements
-/

namespace MarketFeed

/-! ## Sums of sizes -/

namespace Table

variable {t t' : Table Decimal}

/-- The sizes have one sum by value, in whatever order they are added up, or one overflow. -/
def SumsFreely (t : Table Decimal) : Prop :=
  ∀ as, as.Perm t.values → SameOutcome Decimal.Same (Decimal.sum t.values) (Decimal.sum as)

namespace SumsFreely

theorem empty : SumsFreely .empty := fun as h => by
  rw [List.Perm.eq_nil h]
  exact .refl Decimal.Same.refl _

theorem of_alike (h : t.SumsFreely) (ht : t.Alike t') : t'.SumsFreely := fun as has =>
  ((h _ ht.values_perm.symm).symm fun _ _ => Decimal.Same.symm).trans
    (fun _ _ _ => Decimal.Same.trans) (h as (has.trans ht.values_perm.symm))

/-- Tables that are alike have the same sum. -/
theorem sameOutcome (h : t.SumsFreely) (ht : t.Alike t') :
    SameOutcome Decimal.Same (Decimal.sum t.values) (Decimal.sum t'.values) :=
  h _ ht.values_perm.symm

/-- Sums that are not rounded do not depend on the order. -/
theorem of_exact (h : ∀ as, as.Perm t.values → Decimal.SumsExactly .zero as) : t.SumsFreely := by
  intro as has
  obtain ⟨d, hd, hval⟩ := Decimal.sum_of_sumsExactly (h _ (.refl _))
  obtain ⟨d', hd', hval'⟩ := Decimal.sum_of_sumsExactly (h as has)
  rw [hd, hd']
  refine .ok (Decimal.same_iff.mpr ?_)
  rw [hval, hval', (has.map Decimal.toRat).sum_eq]

/-- Neither do those of quantities up to a total of `10 ^ 20`. -/
theorem of_isQuantity (hquantity : ∀ a ∈ t.values, Decimal.IsQuantity a.toRat)
    (hsum : (t.values.map Decimal.toRat).sum < 10 ^ 20) : t.SumsFreely := by
  refine of_exact fun as has => Decimal.sumsExactly_of_isQuantity ?_ ?_ ?_
  · rw [Decimal.toRat_zero]
    exact .zero
  · exact fun a ha => hquantity a (has.mem_iff.mp ha)
  · rwa [Decimal.toRat_zero, zero_add, (has.map Decimal.toRat).sum_eq]

end SumsFreely

end Table

/-! ## Orders of a side -/

namespace Orders

variable {o o' : Orders} {n : ℕ}

/-- The sizes at no price depend on the order in which they are added up. -/
def SumsFreely (o : Orders) : Prop := ∀ r ∈ o.rungs, r.2.SumsFreely

namespace SumsFreely

theorem of_alike (h : o.SumsFreely) (ho : o.Alike o') : o'.SumsFreely := fun r hr => by
  obtain ⟨r', hr', -, halike⟩ := Ladder.Related.exists_of_mem ho.symm hr
  exact (h r' hr').of_alike halike.symm

theorem level (h : o.SumsFreely) (p : Decimal) : (o.level p).SumsFreely := by
  rw [level_eq_levelAt, levelAt]
  cases hrung : o.rungAt p.toRat with
  | none => exact .empty
  | some t =>
    obtain ⟨p', hmem, -⟩ := Ladder.mem_rungs_of_rungAt hrung
    exact h _ hmem

end SumsFreely

namespace Alike

/-- **What an event does is not told by the listing.** It touches the same price of orders that are
alike and leaves them alike, or ends with the same overflow. -/
theorem apply (h : o.Alike o') (e : Event) :
    SameOutcome (fun r r' => r.1.Alike r'.1 ∧ r.2 = r'.2) (o.apply e) (o'.apply e) := by
  cases e with
  | opened id price remaining => exact .ok ⟨h.set price id remaining, rfl⟩
  | closed id price remaining reason =>
    simp only [Orders.apply, h.size?_eq]
    cases o'.size? price id with
    | none => exact .ok ⟨h, rfl⟩
    | some _ => exact .ok ⟨h.remove price id, rfl⟩
  | resized id price old new =>
    cases price with
    | none => exact .ok ⟨h, rfl⟩
    | some price =>
      cases new with
      | none => exact .ok ⟨h, rfl⟩
      | some size =>
        simp only [Orders.apply, h.size?_eq]
        cases o'.size? price id with
        | none => exact .ok ⟨h, rfl⟩
        | some _ => exact .ok ⟨h.set price id size, rfl⟩
  | traded trade id taker price traded =>
    simp only [Orders.apply, h.size?_eq]
    cases o'.size? price id with
    | none => exact .ok ⟨h, rfl⟩
    | some size =>
      refine (SameOutcome.refl (R := Eq) (fun _ => rfl) (size.minus traded)).bind ?_
      rintro rest _ rfl
      exact .ok ⟨h.set price id (rest.max .zero), rfl⟩

theorem sameOutcome_amount (h : o.Alike o') (hfree : o.SumsFreely) (p : Decimal) :
    SameOutcome Decimal.Same (o.amount p) (o'.amount p) :=
  (hfree.level p).sameOutcome (h.level p)

end Alike

theorem sameOutcome_rows {rs rs' : List (Decimal × Table Decimal)}
    (h : List.Forall₂ (fun r r' => r.1 = r'.1 ∧ r.2.Alike r'.2) rs rs')
    (hfree : ∀ r ∈ rs, r.2.SumsFreely) :
    SameOutcome (List.Forall₂ Row.Same) (rows n rs) (rows n rs') := by
  induction h with
  | nil => exact .ok .nil
  | cons hr _ ih =>
    obtain ⟨hfirst, hrest⟩ := List.forall_mem_cons.mp hfree
    rw [rows, rows, List.mapM_cons, List.mapM_cons]
    refine SameOutcome.bind (R := Row.Same) ?_ fun _ _ hrow => (ih hrest).bind fun _ _ hrows => ?_
    · exact (hfirst.sameOutcome hr.2).bind fun _ _ hamount => .ok ⟨hr.1, hamount, rfl⟩
    · exact .ok (.cons hrow hrows)

end Orders

/-! ## Snapshots and diffs -/

namespace Snapshot

variable {s s' : Snapshot}

/-- the snapshot without the time of its response -/
def untimed (s : Snapshot) : Snapshot := { s with timestamp := default }

theorem untimed_eq_iff : s.untimed = s'.untimed ↔ s.productId = s'.productId ∧
    s.sequence = s'.sequence ∧ s.bids = s'.bids ∧ s.asks = s'.asks := by
  simp [untimed]

/-- The orders at no price depend on the order in which they are added up. -/
def SumsFreely (s : Snapshot) : Prop :=
  (Orders.ofList s.bids).SumsFreely ∧ (Orders.ofList s.asks).SumsFreely

end Snapshot

namespace OrderIndex

variable {σ τ : Arrangement} {x x' y : OrderIndex} {rows : Rows} {s s' : Snapshot} {d : Diff}

/-- The orders at no price depend on the order in which they are added up. -/
def SumsFreely (x : OrderIndex) : Prop := ∀ s, (x.side s).SumsFreely

theorem SumsFreely.of_alike (h : x.SumsFreely) (hx : x.Alike y) : y.SumsFreely := fun s =>
  (h s).of_alike (hx s)

theorem sumsFreely_ofSnapshot_iff : (ofSnapshot (A := σ) s).SumsFreely ↔ s.SumsFreely := by
  have halike := alike_ofSnapshot (A := σ) s
  constructor
  · intro h
    have hlist := h.of_alike halike
    exact ⟨hlist .buy, hlist .sell⟩
  · intro h
    refine SumsFreely.of_alike (fun side => ?_) halike.symm
    cases side with
    | buy => exact h.1
    | sell => exact h.2

/-- Sizes whose total is bounded add up without rounding. -/
theorem sumsFreely_of_bounded {v : ℚ} (h : x.WellFormed) (hx : x.flat.Bounded v)
    (hv : v < 10 ^ 20) : x.SumsFreely := by
  intro s r hr
  have hquantity := isQuantity_of_bounded h hx s r.1.toRat
  have hsum := sum_lt_of_bounded h hx hv s r.1.toRat
  rw [(h s).levelAt_rung hr] at hquantity hsum
  exact .of_isQuantity hquantity hsum

/-- The orders of a snapshot, listed in two ways. -/
theorem alike_ofSnapshot_of_untimed (hs : s.untimed = s'.untimed) :
    (ofSnapshot (A := σ) s).Alike (ofSnapshot (A := τ) s') := by
  obtain ⟨-, -, hbids, hasks⟩ := Snapshot.untimed_eq_iff.mp hs
  have halike := alike_ofSnapshot (A := τ) s'
  rw [← hbids, ← hasks] at halike
  exact (alike_ofSnapshot (A := σ) s).trans halike.symm

theorem sameOutcome_load (hs : s.untimed = s'.untimed) (hfree : s.SumsFreely) :
    SameOutcome (fun r r' => r.1.Alike r'.1 ∧ r.2.Same r'.2) (load (A := σ) s)
      (load (A := τ) s') := by
  obtain ⟨-, hsequence, -⟩ := Snapshot.untimed_eq_iff.mp hs
  have halike := alike_ofSnapshot_of_untimed (σ := σ) (τ := τ) hs
  have hfree := (sumsFreely_ofSnapshot_iff (σ := σ)).mpr hfree
  unfold load
  rw [← hsequence]
  refine (Orders.sameOutcome_rows (List.forall₂_reverse_iff.mpr (halike .buy)) fun r hr =>
    hfree .buy r (List.mem_reverse.mp hr)).bind fun _ _ hbids => ?_
  exact (Orders.sameOutcome_rows (halike .sell) (hfree .sell)).bind fun _ _ hasks =>
    .ok ⟨halike, hbids, hasks⟩

/-- A diff finds the same orders however they are listed, and lists them in another way. -/
theorem Alike.apply (h : x.Alike x') (happly : OrderIndex.apply (A := σ) x d = .ok (y, rows))
    (hfree : y.SumsFreely) : ∃ y' rows', OrderIndex.apply (A := τ) x' d = .ok (y', rows') ∧
      y.Alike y' ∧ rows.Same rows' := by
  obtain ⟨⟨o, touched⟩, hevent, happly⟩ := bind_eq_ok_iff.mp happly
  obtain ⟨⟨o', touched'⟩, hevent', ho, rfl⟩ := ((h d.side).apply d.event).exists_ok hevent
  cases touched with
  | none =>
    cases happly
    exact ⟨_, _, bind_eq_ok hevent' rfl, h.withSide d.side ho, .none⟩
  | some p =>
    obtain ⟨amount, hamount, happly⟩ := bind_eq_ok_iff.mp happly
    cases happly
    have hlisted := (alike_listAnew (A := σ) d p o).trans
      (ho.trans (alike_listAnew (A := τ) d p o').symm)
    have hside := hfree d.side
    rw [side_withSide, if_pos rfl] at hside
    obtain ⟨amount', hamount', hsame⟩ := (hlisted.sameOutcome_amount hside p).exists_ok hamount
    have hrow : Row.Same ⟨p, amount, d.sequence⟩ ⟨p, amount', d.sequence⟩ := ⟨rfl, hsame, rfl⟩
    exact ⟨_, _, bind_eq_ok hevent' (bind_eq_ok hamount' rfl), h.withSide d.side hlisted,
      Rows.Same.single hrow d.side⟩

end OrderIndex

theorem Snapshot.sumsFreely_of_isQuantity {s : Snapshot}
    (hquantity : ∀ a ∈ s.sizes, Decimal.IsQuantity a.toRat)
    (hsum : (s.sizes.map Decimal.toRat).sum < 10 ^ 20) : s.SumsFreely := by
  have hbounded := FlatOrders.Bounded.ofSnapshot hquantity
  rw [← OrderIndex.flat_ofSnapshot] at hbounded
  exact OrderIndex.sumsFreely_ofSnapshot_iff.mp
    (OrderIndex.sumsFreely_of_bounded (.ofSnapshot s) hbounded hsum)

/-! ## Products -/

namespace TrackedBook

variable {σ τ : Arrangement} {t t' u : TrackedBook} {s s' : Snapshot} {d : Diff} {applied : Bool}

/-- The same orders, listed in any order, and the same levels by value. -/
structure Alike (t t' : TrackedBook) : Prop where
  productId_eq : t.productId = t'.productId
  timestamp_eq : t.timestamp = t'.timestamp
  levels : t.levels.Same t'.levels
  orders : t.orders.Alike t'.orders

theorem Alike.refl (t : TrackedBook) : t.Alike t := ⟨rfl, rfl, .refl _, .refl _⟩

/-- the book without the time of its response -/
def untimed (t : TrackedBook) : TrackedBook := { t with timestamp := default }

/-- **Books of a snapshot do not tell how the orders are listed**, nor, but for their times, when
the response came. -/
theorem sameOutcome_ofSnapshot (hs : s.untimed = s'.untimed) (hfree : s.SumsFreely) :
    SameOutcome (fun t t' => t.timestamp = s.timestamp ∧ t'.timestamp = s'.timestamp ∧
      t.untimed.Alike t'.untimed) (ofSnapshot (A := σ) s) (ofSnapshot (A := τ) s') := by
  obtain ⟨hid, hsequence, -⟩ := Snapshot.untimed_eq_iff.mp hs
  refine (OrderIndex.sameOutcome_load hs hfree).bind fun (x, rows) (x', rows') hload => .ok ?_
  refine ⟨rfl, rfl, hid, rfl, ?_, hload.1⟩
  simp only [untimed, hid, hsequence]
  exact (LevelBook.Same.refl _).load hload.2 _

/-- A snapshot that has a book under one arrangement has one under any other. -/
theorem exists_alike_ofSnapshot (h : ofSnapshot (A := σ) s = .ok t) (hfree : s.SumsFreely) :
    ∃ t', ofSnapshot (A := τ) s = .ok t' ∧ t.Alike t' := by
  obtain ⟨t', ht', htime, htime', halike⟩ :=
    (sameOutcome_ofSnapshot (τ := τ) (rfl : s.untimed = s.untimed) hfree).exists_ok h
  exact ⟨t', ht', halike.productId_eq, htime.trans htime'.symm, halike.levels, halike.orders⟩

/-- **A diff keeps books alike**, and is applied to both of them or to none. -/
theorem Alike.apply (h : t.Alike t') (happly : TrackedBook.apply (A := σ) t d = .ok (u, applied))
    (hfree : u.orders.SumsFreely) :
    ∃ u', TrackedBook.apply (A := τ) t' d = .ok (u', applied) ∧ u.Alike u' := by
  obtain ⟨⟨y, rows⟩, horders, happly⟩ := bind_eq_ok_iff.mp happly
  rcases hlevels : t.levels.apply rows d.sequence with ⟨levels, applied₁⟩
  simp only [hlevels] at happly
  cases happly
  obtain ⟨y', rows', horders', hy, hrows⟩ := h.orders.apply (τ := τ) horders hfree
  obtain ⟨hsame, happlied⟩ := h.levels.apply hrows d.sequence
  rcases hlevels' : t'.levels.apply rows' d.sequence with ⟨levels', applied'⟩
  rw [hlevels, hlevels'] at hsame happlied
  obtain rfl : applied = applied' := happlied
  refine ⟨⟨t'.productId, t'.timestamp, levels', y'⟩, bind_eq_ok horders' ?_, h.productId_eq,
    h.timestamp_eq, hsame, hy⟩
  simp only [hlevels']
  rfl

end TrackedBook

end MarketFeed
