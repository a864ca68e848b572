import MarketFeed.Proofs.Book.Health

/-!
# What a book lists

Whatever a book has been told of, it lists the levels of each side with the best first, and its best
prices are the extreme ones. At any depth the best levels are listed, with figures that do not
depend on it. The figures are those of the whole book, so where one of them overflows nothing is
listed at any depth: no matter how few levels are asked for, a book may hold more than a decimal can
count.

## Main definitions

* `Level.AreBest`: some levels are the best of all
* `LevelBook.Orderly`: what a book lists, at every depth

## Main results

* `LevelBook.after_orderly`: any book lists its levels properly, and only takes later diffs
* `LevelBook.state_after_laden`: a book with more than a decimal can count lists nothing
-/

namespace MarketFeed

/-! ## Listed levels -/

namespace Level

variable {better : ℚ → ℚ → Prop} {levels : List Level}

/-- the prices of levels by value -/
def prices (levels : List Level) : Set ℚ := {q | ∃ l ∈ levels, l.price.toRat = q}

/-- Levels with the best first. -/
def BestFirst (better : ℚ → ℚ → Prop) (levels : List Level) : Prop :=
  levels.Pairwise fun l l' => better l.price.toRat l'.price.toRat

/-- Some levels are the best `n` of all, or all if there are fewer. -/
structure AreBest (better : ℚ → ℚ → Prop) (n : ℕ) (best all : List Level) : Prop where
  length_eq : best.length = min n all.length
  exists_rest : ∃ rest, all = best ++ rest ∧
    ∀ l ∈ best, ∀ l' ∈ rest, better l.price.toRat l'.price.toRat

theorem BestFirst.take (h : BestFirst better levels) (n : ℕ) :
    AreBest better n (levels.take n) levels := by
  refine ⟨List.length_take, levels.drop n, (List.take_append_drop n levels).symm, ?_⟩
  rw [BestFirst, ← List.take_append_drop n levels] at h
  exact (List.pairwise_append.mp h).2.2

/-- The price of the first level is that of a level, and the best. -/
theorem BestFirst.head (h : BestFirst better levels) {p : Decimal}
    (hp : p ∈ levels.head?.map Level.price) :
    p.toRat ∈ prices levels ∧ ∀ q ∈ prices levels, q = p.toRat ∨ better p.toRat q := by
  rcases levels with - | ⟨l, levels⟩
  · cases hp
  obtain rfl : l.price = p := Option.some.inj hp
  refine ⟨⟨l, List.mem_cons_self, rfl⟩, ?_⟩
  rintro q ⟨l', hl', rfl⟩
  rcases List.mem_cons.mp hl' with rfl | hl'
  · exact .inl rfl
  · exact .inr ((List.pairwise_cons.mp h).1 l' hl')

end Level

/-! ## Books -/

namespace LevelBook

variable {b : LevelBook}

/-- What a book lists: its levels in order, the best first, and at any depth the best of them with
the same figures. -/
structure Orderly (b : LevelBook) : Prop where
  bids_descending : Level.BestFirst (· > ·) b.bidLevels
  asks_ascending : Level.BestFirst (· < ·) b.askLevels
  quantity_pos : ∀ l ∈ b.bidLevels ++ b.askLevels, 0 < l.quantity.toRat
  bestBid_eq_none : b.bestBid = none ↔ b.bidLevels = []
  bestBid : ∀ p ∈ b.bestBid, IsGreatest (Level.prices b.bidLevels) p.toRat
  bestAsk_eq_none : b.bestAsk = none ↔ b.askLevels = []
  bestAsk : ∀ p ∈ b.bestAsk, IsLeast (Level.prices b.askLevels) p.toRat
  /-- The state has a result just if none of the figures overflows. -/
  exists_state_iff : ∀ depth, (∃ x, b.state depth = .ok x) ↔ b.PricesFit ∧ b.VolumesFit
  state_best : ∀ depth x, b.state depth = .ok x →
    Level.AreBest (· > ·) depth x.bids b.bidLevels ∧
      Level.AreBest (· < ·) depth x.asks b.askLevels
  /-- Depths differ in nothing but the levels listed, overflows included. -/
  state_eq : ∀ depth depth', b.state depth' = (b.state depth).map fun x =>
    { x with bids := b.bidLevels.take depth', asks := b.askLevels.take depth' }

/-- Proper sides are listed properly. -/
theorem Proper.orderly (h : b.Proper) : b.Orderly := by
  have hbids : Level.BestFirst (· > ·) b.bidLevels := by
    have hasc := Ladder.ascending_iff.mp (h .buy).ascending
    exact List.pairwise_map.mpr (List.pairwise_reverse.mpr hasc)
  have hasks : Level.BestFirst (· < ·) b.askLevels := by
    have hasc := Ladder.ascending_iff.mp (h .sell).ascending
    exact List.pairwise_map.mpr hasc
  refine ⟨hbids, hasks, h.quantity_pos, ?_, ?_, ?_, ?_, h.exists_state_iff, ?_, ?_⟩
  · rw [bestBid_eq, Option.map_eq_none_iff, List.head?_eq_none_iff]
  · intro p hp
    rw [bestBid_eq] at hp
    obtain ⟨hmem, hbest⟩ := hbids.head hp
    exact ⟨hmem, fun q hq => (hbest q hq).elim Eq.le fun hgt => hgt.le⟩
  · rw [bestAsk_eq, Option.map_eq_none_iff, List.head?_eq_none_iff]
  · intro p hp
    rw [bestAsk_eq] at hp
    obtain ⟨hmem, hbest⟩ := hasks.head hp
    exact ⟨hmem, fun q hq => (hbest q hq).elim Eq.ge fun hlt => hlt.le⟩
  · intro depth x hx
    obtain ⟨m, -, rfl⟩ := state_eq_ok hx
    exact ⟨hbids.take depth, hasks.take depth⟩
  · intro depth depth'
    unfold state
    cases Metrics.compute b.bidLevels b.askLevels imbalanceLevels <;> rfl

/-- **A book lists its levels in order, and takes later diffs only.** Whatever snapshots and diffs a
book has been told of, its levels stand in order with one for each price value, all amounts are
positive, the best prices are the extreme ones, and unless one of its figures overflows, the best
levels are listed at any depth, with figures that do not depend on it. A diff is refused just if
there was no snapshot or it is no later than the book, and then nothing changes; otherwise the book
is as late as the diff, and levels at prices that no row names for their side are as they were. -/
theorem after_orderly (id : String) (cs : List Change) :
    (after id cs).Orderly ∧
      ∀ rows n b' applied, (after id cs).apply rows n = (b', applied) →
        (applied = false ↔
          (∀ rows' n', .load rows' n' ∉ cs) ∨ n ≤ (after id cs).lastUpdateId) ∧
        (applied = false → b' = after id cs) ∧
        (applied = true → b'.lastUpdateId = n ∧ ∀ s (r : Decimal × Standing),
          (∀ row ∈ rows.side s, row.price.toRat ≠ r.1.toRat) →
            (r ∈ (b'.side s).rungs ↔ r ∈ ((after id cs).side s).rungs)) := by
  refine ⟨(proper_after id cs).orderly, ?_⟩
  intro rows n b' applied happly
  have hinit := initialized_after id cs
  generalize after id cs = b at *
  have hrefused : ¬ b.Accepts n ↔ (∀ rows' n', .load rows' n' ∉ cs) ∨ n ≤ b.lastUpdateId := by
    rw [Accepts, hinit, not_and_or, not_lt]
    push Not
    exact Iff.rfl
  by_cases haccepts : b.Accepts n
  · obtain ⟨b₁, happly₁, -, hlast, hside⟩ := apply_of_accepts haccepts rows
    cases happly₁.symm.trans happly
    refine ⟨by simp [← hrefused, haccepts], nofun, fun _ => ⟨hlast, fun s r hr => ?_⟩⟩
    rw [hside]
    exact Standings.mem_rungs_writeAll_of_ne hr
  · cases (apply_of_not_accepts haccepts rows).symm.trans happly
    exact ⟨by simp [← hrefused, haccepts], fun _ => rfl, nofun⟩

/-- two bids of the greatest amount there is -/
def laden : List Change :=
  [.load ⟨[⟨.one, .ofNat 79228162514264337593543950335, 1⟩,
    ⟨.ofNat 13, .ofNat 79228162514264337593543950335, 1⟩], []⟩ 1]

/-- A book with more than a decimal can count lists nothing, not even its best level. -/
theorem state_after_laden : (after "BTC-USD" laden).bidLevels.length = 2 ∧
    (after "BTC-USD" laden).state 1 = .error .addition := by
  decide

end LevelBook

end MarketFeed
