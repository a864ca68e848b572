import MarketFeed.Book.Levels
import MarketFeed.Proofs.Book.Arrangement

/-!
# Writing levels

A row decides what stands at its price, unless a later update stands there. Rows of an update that
is no older than any level therefore leave at every price what the row for it says.

## Main definitions

* `Standings.ofRow`: what a row puts at its price
* `Standings.values`: the levels by value
* `Standings.StampedBy`: no level is later than an update
* `Standings.Agrees`: the levels of a side are the totals of its orders

## Main results

* `Standings.rungAt_write`: what stands at a price after a row
* `Standings.Agrees.of_rows`: the rows of a snapshot make levels that agree with its orders
* `Standings.Agrees.apply`: the row of an event keeps levels and orders in agreement
-/

namespace MarketFeed

namespace Standings

variable {l : Standings} {n : ℕ} {q : ℚ}

/-- what a row puts at its price: a level, or none if the amount is not positive -/
def ofRow (r : Row) : Option Standing :=
  if r.amount.toRat ≤ 0 then none else some ⟨r.amount, r.updateId⟩

theorem rungAt_write (l : Standings) (r : Row) (q : ℚ) :
    (l.write r).rungAt q =
      if r.price.toRat = q ∧ ¬ (l.rungAt q).any (fun s => r.updateId < s.updateId) then ofRow r
      else l.rungAt q := by
  have hwrite : l.write r =
      if (l.rungAt r.price.toRat).any (fun s => r.updateId < s.updateId) then l
      else if r.amount ≤ .zero then l.erase r.price
      else l.insert r.price ⟨r.amount, r.updateId⟩ := by
    rw [write, Ladder.find?_eq_rungAt]
  by_cases hlate : (l.rungAt r.price.toRat).any fun s => r.updateId < s.updateId
  · rw [hwrite, if_pos hlate, if_neg]
    rintro ⟨rfl, hnot⟩
    exact hnot hlate
  · rw [hwrite, if_neg hlate]
    by_cases hamount : r.amount ≤ .zero
    · rw [if_pos hamount, Ladder.rungAt_erase, ofRow, if_pos (Decimal.le_zero_iff.mp hamount)]
      by_cases hq : r.price.toRat = q
      · rw [if_pos hq, if_pos ⟨hq, hq ▸ hlate⟩]
      · rw [if_neg hq, if_neg fun h => hq h.1]
    · rw [if_neg hamount, Ladder.rungAt_insert, ofRow,
        if_neg (mt Decimal.le_zero_iff.mpr hamount)]
      by_cases hq : r.price.toRat = q
      · rw [if_pos hq, if_pos ⟨hq, hq ▸ hlate⟩]
      · rw [if_neg hq, if_neg fun h => hq h.1]

theorem ascending_write (h : l.Ascending) (r : Row) : (l.write r).Ascending := by
  unfold write
  split_ifs
  · exact h
  · exact h.erase r.price
  · exact h.insert r.price _

theorem ascending_writeAll (h : l.Ascending) (rows : List Row) : (l.writeAll rows).Ascending := by
  induction rows generalizing l with
  | nil => exact h
  | cons r rows ih => exact ih (ascending_write h r)

/-! ## Levels by value -/

/-- the prices and amounts of the levels by value, from the lowest price up -/
def values (l : Standings) : List (ℚ × ℚ) := l.rungs.map fun r => (r.1.toRat, r.2.amount.toRat)

theorem mem_values_iff (h : l.Ascending) {v : ℚ} :
    (q, v) ∈ l.values ↔ ∃ s ∈ l.rungAt q, s.amount.toRat = v := by
  simp only [values, List.mem_map, Prod.mk.injEq, Option.mem_def, h.rungAt_eq_some_iff]
  constructor
  · rintro ⟨r, hr, rfl, rfl⟩
    exact ⟨r.2, ⟨r.1, hr, rfl⟩, rfl⟩
  · rintro ⟨s, ⟨p, hr, rfl⟩, rfl⟩
    exact ⟨(p, s), hr, rfl, rfl⟩

/-- Levels in order are told by what stands at each price. -/
theorem values_eq_of_mem_iff {l' : Standings} (h : l.Ascending) (h' : l'.Ascending)
    (hmem : ∀ e, e ∈ l.values ↔ e ∈ l'.values) : l.values = l'.values := by
  have rising : ∀ k : Standings, k.Ascending → k.values.Pairwise fun e e' => e.1 < e'.1 :=
    fun k hk => List.pairwise_map.mpr (Ladder.ascending_iff.mp hk)
  have nodup : ∀ k : Standings, k.Ascending → k.values.Nodup := fun k hk =>
    (rising k hk).imp fun hlt heq => hlt.ne (congrArg Prod.fst heq)
  refine List.Perm.eq_of_pairwise (fun e e' _ _ hlt hgt => ?_) (rising l h) (rising l' h') ?_
  · exact absurd hgt hlt.not_gt
  · exact (List.perm_ext_iff_of_nodup (nodup l h) (nodup l' h')).mpr hmem

/-! ## Rows that are no older than the levels -/

/-- No level was set by a later update. -/
def StampedBy (n : ℕ) (l : Standings) : Prop := ∀ q, ∀ s ∈ l.rungAt q, s.updateId ≤ n

theorem StampedBy.empty (n : ℕ) : StampedBy n Ladder.empty := fun _ _ h => by cases h

theorem StampedBy.mono {m : ℕ} (h : StampedBy n l) (hle : n ≤ m) : StampedBy m l :=
  fun q s hs => (h q s hs).trans hle

theorem StampedBy.rungAt_write (h : StampedBy n l) {r : Row} (hr : n ≤ r.updateId) (q : ℚ) :
    (l.write r).rungAt q = if r.price.toRat = q then ofRow r else l.rungAt q := by
  have hnot : ¬ (l.rungAt q).any (fun s => r.updateId < s.updateId) := by
    rw [Option.any_eq_true]
    rintro ⟨s, hs, hlt⟩
    have := h q s hs
    simp only [decide_eq_true_eq] at hlt
    omega
  simp [Standings.rungAt_write, hnot]

theorem StampedBy.write (h : StampedBy n l) {r : Row} (hr : r.updateId = n) :
    StampedBy n (l.write r) := by
  intro q s hs
  rw [h.rungAt_write hr.ge] at hs
  split_ifs at hs
  · unfold ofRow at hs
    split_ifs at hs
    · cases hs
    · obtain rfl := Option.some.inj hs
      exact hr.le
  · exact h q s hs

/-- After rows for different prices there stands at the price of each what it puts there, and at
other prices what stood there. -/
theorem StampedBy.writeAll (h : StampedBy n l) {rows : List Row}
    (hid : ∀ r ∈ rows, r.updateId = n)
    (hne : rows.Pairwise fun r r' => r.price.toRat ≠ r'.price.toRat) :
    StampedBy n (l.writeAll rows) ∧
      (∀ r ∈ rows, (l.writeAll rows).rungAt r.price.toRat = ofRow r) ∧
      ∀ q, (∀ r ∈ rows, r.price.toRat ≠ q) → (l.writeAll rows).rungAt q = l.rungAt q := by
  induction rows generalizing l with
  | nil => exact ⟨h, fun _ h => absurd h List.not_mem_nil, fun _ _ => rfl⟩
  | cons r rows ih =>
    obtain ⟨hr, hrows⟩ := List.pairwise_cons.mp hne
    have hrid := hid r List.mem_cons_self
    obtain ⟨hstamped, hat, hother⟩ :=
      ih (h.write hrid) (fun r' hr' => hid r' (List.mem_cons_of_mem _ hr')) hrows
    refine ⟨hstamped, fun r' hr' => ?_, fun q hq => ?_⟩
    · rcases List.mem_cons.mp hr' with rfl | hr'
      · rw [writeAll, List.foldl_cons, ← writeAll, hother _ fun r'' hr'' => (hr r'' hr'').symm,
          h.rungAt_write hrid.ge, if_pos rfl]
      · exact hat r' hr'
    · rw [writeAll, List.foldl_cons, ← writeAll,
        hother q fun r' hr' => hq r' (List.mem_cons_of_mem _ hr'),
        h.rungAt_write hrid.ge, if_neg (hq r List.mem_cons_self)]

/-! ## Agreement with orders -/

/-- The levels of a side after some update are the totals of its orders, where these are
positive. -/
structure Agrees (n : ℕ) (o : Orders) (l : Standings) : Prop where
  wellFormed : o.WellFormed
  ascending : l.Ascending
  stamped : StampedBy n l
  total : ∀ q, ∃ total, Decimal.sum (o.levelAt q).values = .ok total ∧
    (l.rungAt q).map Standing.amount = if total.toRat ≤ 0 then none else some total

theorem map_amount_ofRow (r : Row) :
    (ofRow r).map Standing.amount = if r.amount.toRat ≤ 0 then none else some r.amount := by
  unfold ofRow
  split_ifs <;> rfl

/-- Rows of all rungs of a side make levels that agree with it. -/
theorem Agrees.of_rows {o : Orders} (ho : o.WellFormed)
    {rungs : List (Decimal × Table Decimal)} {rows : List Row}
    (hrungs : ∀ r, r ∈ rungs ↔ r ∈ o.rungs)
    (hne : rungs.Pairwise fun r r' => r.1.toRat ≠ r'.1.toRat)
    (hrows : List.Forall₂ (Orders.IsRowOf n) rungs rows) :
    Agrees n o (writeAll .empty rows) := by
  have hid : ∀ row ∈ rows, row.updateId = n := fun row hrow => by
    obtain ⟨r, -, h⟩ := Orders.exists_rung_of_mem_rows hrows hrow
    exact h.updateId
  have hne' : rows.Pairwise fun r r' => r.price.toRat ≠ r'.price.toRat := by
    rw [← List.pairwise_map (f := Row.price) (R := fun p p' => p.toRat ≠ p'.toRat),
      Orders.prices_of_isRowOf hrows, List.pairwise_map]
    exact hne
  obtain ⟨hstamped, hat, hother⟩ := (StampedBy.empty n).writeAll hid hne'
  refine ⟨ho, ascending_writeAll Ladder.Ascending.empty rows, hstamped, fun q => ?_⟩
  by_cases hq : ∃ row ∈ rows, row.price.toRat = q
  · obtain ⟨row, hrow, rfl⟩ := hq
    obtain ⟨r, hr, hof⟩ := Orders.exists_rung_of_mem_rows hrows hrow
    refine ⟨row.amount, ?_, by rw [hat row hrow, map_amount_ofRow]⟩
    rw [hof.price, ho.levelAt_rung ((hrungs r).mp hr), hof.amount]
  · push Not at hq
    have hnone : o.rungAt q = none := Ladder.rungAt_eq_none_iff.mpr fun r hr heq => by
      have hmem : r.1 ∈ rows.map Row.price := by
        rw [Orders.prices_of_isRowOf hrows]
        exact List.mem_map_of_mem ((hrungs r).mpr hr)
      obtain ⟨row, hrow, hprice⟩ := List.mem_map.mp hmem
      exact hq row hrow (hprice ▸ heq)
    refine ⟨.zero, by rw [Orders.levelAt, hnone]; rfl, ?_⟩
    rw [hother q hq, Ladder.rungAt_empty, Decimal.toRat_zero, if_pos le_rfl, Option.map_none]

/-- A later event that touches nothing keeps levels and orders in agreement. -/
theorem Agrees.mono {o : Orders} {m : ℕ} (h : Agrees n o l) (hle : n ≤ m) : Agrees m o l :=
  ⟨h.wellFormed, h.ascending, h.stamped.mono hle, h.total⟩

/-- The row of the level that a diff touches keeps levels and orders in agreement. -/
theorem Agrees.apply [A : Arrangement] {o o' : Orders} (h : Agrees n o l) {d : Diff}
    {p amount : Decimal} {m : ℕ} (happly : o.apply d.event = .ok (o', some p))
    (hamount : (OrderIndex.listAnew d p o').amount p = .ok amount) (hle : n ≤ m) :
    Agrees m (OrderIndex.listAnew d p o') (l.write ⟨p, amount, m⟩) := by
  have hstamped := h.stamped.mono hle
  have hwf := (OrderIndex.alike_listAnew d p o').wellFormed (h.wellFormed.apply happly)
  refine ⟨hwf, ascending_write h.ascending _, hstamped.write rfl, fun q => ?_⟩
  rw [h.stamped.rungAt_write hle]
  by_cases hq : p.toRat = q
  · subst hq
    refine ⟨amount, ?_, by rw [if_pos rfl, map_amount_ofRow]⟩
    rw [← Orders.amount_eq_sum_levelAt, hamount]
  · obtain ⟨total, htotal, hrung⟩ := h.total q
    refine ⟨total, ?_, by rw [if_neg hq, hrung]⟩
    rw [OrderIndex.levelAt_listAnew_of_ne d hq,
      Orders.levelAt_apply_of_ne happly fun p' hp' => Option.some.inj hp' ▸ hq, htotal]

end Standings

end MarketFeed
