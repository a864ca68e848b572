import MarketFeed.Proofs.Book.Consistency

/-!
# Proper books

A book is told of snapshots and of diffs, with rows of any kind: for prices that come up again, in
another spelling or with amounts that clear, of updates that are older than the levels they are for.
Whatever came, the levels of a side stand in order, one for each price value, and all their amounts
are positive.

## Main definitions

* `LevelBook.Change`, `LevelBook.after`: what can happen to a book, and the book after some of it
* `Standings.Proper`: levels in order with positive amounts
* `LevelBook.Proper`: both sides of a book are proper

## Main results

* `Standings.Proper.write`: a row keeps the levels in order and positive
* `Standings.mem_rungs_writeAll_of_ne`: rows leave the levels at all other prices
* `LevelBook.proper_after`: any book is proper
-/

namespace MarketFeed

/-! ## Levels of a side -/

namespace Ladder

variable {α : Type}

theorem mem_place_iff_of_ne {p : Decimal} {a : α} {rs : List (Decimal × α)} {r : Decimal × α}
    (h : p.toRat ≠ r.1.toRat) : r ∈ place p a rs ↔ r ∈ rs := by
  induction rs with
  | nil =>
    rw [place, List.mem_singleton]
    constructor
    · rintro rfl
      exact absurd rfl h
    · exact fun hmem => absurd hmem List.not_mem_nil
  | cons r' rs ih =>
    unfold place
    split_ifs with hlt hsame
    · rw [List.mem_cons, List.mem_cons, ih]
    · have hne : r ≠ r' ∧ r ≠ (r'.1, a) := by
        constructor <;> rintro rfl <;> exact h (Decimal.same_iff.mp hsame).symm
      simp [hne]
    · have hne : r ≠ (p, a) := by
        rintro rfl
        exact h rfl
      simp [hne]

theorem mem_rungs_erase_iff_of_ne {l : Ladder α} {p : Decimal} {r : Decimal × α}
    (h : p.toRat ≠ r.1.toRat) : r ∈ (l.erase p).rungs ↔ r ∈ l.rungs := by
  have hsame : ¬ r.1.Same p := fun hsame => h (Decimal.same_iff.mp hsame).symm
  simp [erase, hsame]

end Ladder

namespace Standings

variable {l : Standings}

/-- The levels of a side stand in order, and their amounts are positive. -/
structure Proper (l : Standings) : Prop where
  ascending : l.Ascending
  positive : ∀ q, ∀ s ∈ l.rungAt q, 0 < s.amount.toRat

theorem Proper.empty : Proper .empty := ⟨Ladder.Ascending.empty, nofun⟩

theorem Proper.amount_pos (h : l.Proper) {r : Decimal × Standing} (hr : r ∈ l.rungs) :
    0 < r.2.amount.toRat :=
  h.positive r.1.toRat r.2 (h.ascending.rungAt_eq_some_iff.mpr ⟨r.1, hr, rfl⟩)

theorem amount_pos_of_ofRow {r : Row} {s : Standing} (h : s ∈ ofRow r) : 0 < s.amount.toRat := by
  unfold ofRow at h
  split_ifs at h with hamount
  · cases h
  · obtain rfl := Option.some.inj h
    exact not_le.mp hamount

/-- **A row keeps the levels in order and positive**, whatever it says. -/
theorem Proper.write (h : l.Proper) (r : Row) : (l.write r).Proper := by
  refine ⟨ascending_write h.ascending r, ?_⟩
  intro q s hs
  rw [rungAt_write] at hs
  split_ifs at hs
  · exact amount_pos_of_ofRow hs
  · exact h.positive q s hs

theorem Proper.writeAll (h : l.Proper) (rows : List Row) : (l.writeAll rows).Proper := by
  induction rows generalizing l with
  | nil => exact h
  | cons r rows ih => exact ih (h.write r)

theorem mem_rungs_write_of_ne {row : Row} {r : Decimal × Standing}
    (h : row.price.toRat ≠ r.1.toRat) : r ∈ (l.write row).rungs ↔ r ∈ l.rungs := by
  unfold write
  split_ifs
  · exact Iff.rfl
  · exact Ladder.mem_rungs_erase_iff_of_ne h
  · exact Ladder.mem_place_iff_of_ne h

/-- Rows leave the levels at all other prices, with their spelling. -/
theorem mem_rungs_writeAll_of_ne {rows : List Row} {r : Decimal × Standing}
    (h : ∀ row ∈ rows, row.price.toRat ≠ r.1.toRat) :
    r ∈ (l.writeAll rows).rungs ↔ r ∈ l.rungs := by
  induction rows generalizing l with
  | nil => exact Iff.rfl
  | cons row rows ih =>
    obtain ⟨hrow, hrows⟩ := List.forall_mem_cons.mp h
    exact (ih hrows).trans (mem_rungs_write_of_ne hrow)

end Standings

/-! ## Books -/

namespace LevelBook

variable {b : LevelBook}

/-- What can happen to a book. -/
inductive Change
  | load (rows : Rows) (updateId : ℕ)
  | apply (rows : Rows) (updateId : ℕ)

/-- the book after a change -/
def change (b : LevelBook) : Change → LevelBook
  | .load rows n => b.load rows n
  | .apply rows n => (b.apply rows n).1

/-- the book of a product after some changes -/
def after (productId : String) (cs : List Change) : LevelBook := cs.foldl change (new productId)

/-- Both sides of a book are proper. -/
def Proper (b : LevelBook) : Prop := ∀ s, (b.side s).Proper

theorem bestBid_eq (b : LevelBook) : b.bestBid = b.bidLevels.head?.map Level.price := by
  rw [bestBid, bidLevels, Standings.levels, List.head?_map, Option.map_map]
  rfl

theorem bestAsk_eq (b : LevelBook) : b.bestAsk = b.askLevels.head?.map Level.price := by
  rw [bestAsk, askLevels, Standings.levels, List.head?_map, Option.map_map]
  rfl

theorem state_eq_ok {depth : ℕ} {x : BookState} (h : b.state depth = .ok x) :
    ∃ m, Metrics.compute b.bidLevels b.askLevels imbalanceLevels = .ok m ∧
      x = ⟨b.productId, b.lastUpdateId, b.bidLevels.take depth, b.askLevels.take depth, m⟩ := by
  obtain ⟨m, hm, h⟩ := bind_eq_ok_iff.mp h
  cases h
  exact ⟨m, hm, rfl⟩

theorem Proper.quantity_pos (h : b.Proper) : ∀ l ∈ b.bidLevels ++ b.askLevels,
    0 < l.quantity.toRat := by
  intro l hl
  rcases List.mem_append.mp hl with hl | hl
  · obtain ⟨r, hr, rfl⟩ := List.mem_map.mp hl
    exact (h .buy).amount_pos (List.mem_reverse.mp hr)
  · obtain ⟨r, hr, rfl⟩ := List.mem_map.mp hl
    exact (h .sell).amount_pos hr

/-! ## Books after changes -/

variable {id : String} {c : Change} {cs : List Change}

theorem after_concat (id : String) (cs : List Change) (c : Change) :
    after id (cs ++ [c]) = (after id cs).change c := List.foldl_concat ..

theorem apply_of_not_accepts {n : ℕ} (h : ¬ b.Accepts n) (rows : Rows) :
    b.apply rows n = (b, false) := if_neg h

theorem Proper.change (h : b.Proper) (c : Change) : (b.change c).Proper := by
  intro s
  cases c with
  | load rows n =>
    rw [LevelBook.change, side_load]
    exact Standings.Proper.empty.writeAll _
  | apply rows n =>
    by_cases haccepts : b.Accepts n
    · obtain ⟨b', happly, -, -, hside⟩ := apply_of_accepts haccepts rows
      rw [LevelBook.change, happly, hside]
      exact (h s).writeAll _
    · rw [LevelBook.change, apply_of_not_accepts haccepts]
      exact h s

theorem proper_after (id : String) (cs : List Change) : (after id cs).Proper := by
  induction cs using List.reverseRecOn with
  | nil =>
    intro s
    cases s <;> exact .empty
  | append_singleton cs c ih =>
    rw [after_concat]
    exact ih.change c

/-- A book is initialized if it has seen a snapshot. -/
theorem initialized_after (id : String) (cs : List Change) :
    (after id cs).initialized = true ↔ ∃ rows n, .load rows n ∈ cs := by
  induction cs using List.reverseRecOn with
  | nil => simp [after, new]
  | append_singleton cs c ih =>
    rw [after_concat]
    cases c with
    | load rows n => exact ⟨fun _ => ⟨rows, n, by simp⟩, fun _ => rfl⟩
    | apply rows n =>
      have hsame : ((after id cs).change (.apply rows n)).initialized =
          (after id cs).initialized := by
        simp only [change, apply]
        split_ifs <;> rfl
      simp [hsame, ih]

end LevelBook

end MarketFeed
