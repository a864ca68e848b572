import MarketFeed.Proofs.Book.Consistency

/-!
# The newest row for a price

Rows for a price may come late. One that is older than the level that stands at its price is
dropped, so that of rows which all set a level the newest wins in whatever order they come. A level
that is cleared is gone together with its stamp, though: the rows that come after it find an empty
price and decide among themselves.

## Main definitions

* `Standings.settle`: what a row makes of what stands at its price
* `Standings.Decides`: what some rows for one price come to
* `LevelBook.applyAll`: the book after some diffs, if it accepts each of them
* `LevelBook.rowsFor`: the rows for a price that a snapshot and diffs have brought

## Main results

* `Standings.rungAt_writeAll`: only the rows for a price decide what stands there
* `Standings.decides_iff`: what rows for one price come to
* `LevelBook.applyAll_decides`: so do those of a snapshot and the diffs after it
* `LevelBook.older_row_after_clear`: the newest of all rows does not always decide
-/

namespace MarketFeed

namespace Standings

variable {l : Standings} {rows before after : List Row} {r : Row} {x : Option Standing}

/-- What a row makes of what stands at its price: a later level stays. -/
def settle (x : Option Standing) (r : Row) : Option Standing :=
  if x.any fun s => r.updateId < s.updateId then x else ofRow r

theorem rungAt_write_eq_settle (l : Standings) (r : Row) (q : ℚ) :
    (l.write r).rungAt q = if r.price.toRat = q then settle (l.rungAt q) r else l.rungAt q := by
  rw [rungAt_write, settle]
  by_cases hq : r.price.toRat = q
  · by_cases hlate : (l.rungAt q).any fun s => r.updateId < s.updateId
    · simp [hq, hlate]
    · simp [hq, hlate]
  · simp [hq]

/-- **Only the rows for a price decide what stands there.** -/
theorem rungAt_writeAll (l : Standings) (rows : List Row) (q : ℚ) :
    (l.writeAll rows).rungAt q =
      (rows.filter fun r => r.price.toRat = q).foldl settle (l.rungAt q) := by
  induction rows generalizing l with
  | nil => rfl
  | cons r rows ih =>
    rw [writeAll, List.foldl_cons, ← writeAll, ih, rungAt_write_eq_settle]
    by_cases hq : r.price.toRat = q <;> simp [hq]

/-! ## Rows for one price -/

/-- What some rows for one price come to. The newest of them decides; if it clears the level, those
that come after it decide in the same way. -/
inductive Decides : List Row → Option Standing → Prop
  | nil : Decides [] none
  | set {before after : List Row} {r : Row}
      (hnewest : ∀ r' ∈ before ++ after, r'.updateId < r.updateId) (hpos : 0 < r.amount.toRat) :
      Decides (before ++ r :: after) (some ⟨r.amount, r.updateId⟩)
  | clear {before after : List Row} {r : Row} {x : Option Standing}
      (hnewest : ∀ r' ∈ before ++ after, r'.updateId < r.updateId) (hclear : r.amount.toRat ≤ 0)
      (hafter : Decides after x) : Decides (before ++ r :: after) x

/-- What stands at a price has the stamp of one of its rows. -/
theorem updateId_lt_of_mem_foldl {n : ℕ} (hx : ∀ s ∈ x, s.updateId < n)
    (hrows : ∀ r ∈ rows, r.updateId < n) : ∀ s ∈ rows.foldl settle x, s.updateId < n := by
  induction rows generalizing x with
  | nil => exact hx
  | cons r rows ih =>
    obtain ⟨hr, hrows⟩ := List.forall_mem_cons.mp hrows
    refine ih (fun s hs => ?_) hrows
    unfold settle at hs
    split_ifs at hs
    · exact hx s hs
    · unfold ofRow at hs
      split_ifs at hs
      · cases hs
      · obtain rfl := Option.some.inj hs
        exact hr

/-- A newer row takes the place of what stood there. -/
theorem settle_of_newer (hx : ∀ s ∈ x, s.updateId < r.updateId) : settle x r = ofRow r := by
  refine if_neg fun hlate => ?_
  obtain ⟨s, hs, hlt⟩ := (Option.any_eq_true _ _).mp hlate
  have := hx s hs
  simp only [decide_eq_true_eq] at hlt
  omega

/-- Older rows leave a level as it is. -/
theorem foldl_settle_of_older {s : Standing} (h : ∀ r ∈ rows, r.updateId < s.updateId) :
    rows.foldl settle (some s) = some s := by
  induction rows with
  | nil => rfl
  | cons r rows ih =>
    obtain ⟨hr, hrows⟩ := List.forall_mem_cons.mp h
    rw [List.foldl_cons, settle, if_pos (by simpa using hr)]
    exact ih hrows

/-- The newest row takes effect when it comes, and the rows after it go on from there. -/
theorem foldl_settle_newest (hnewest : ∀ r' ∈ before ++ after, r'.updateId < r.updateId) :
    (before ++ r :: after).foldl settle none = after.foldl settle (ofRow r) := by
  have hbefore := updateId_lt_of_mem_foldl (x := none) nofun
    fun r' hr' => hnewest r' (List.mem_append_left _ hr')
  rw [List.foldl_append, List.foldl_cons, settle_of_newer hbefore]

theorem ofRow_of_pos (h : 0 < r.amount.toRat) : ofRow r = some ⟨r.amount, r.updateId⟩ :=
  if_neg (not_le.mpr h)

theorem ofRow_of_nonpos (h : r.amount.toRat ≤ 0) : ofRow r = none := if_pos h

theorem Decides.foldl_eq (h : Decides rows x) : rows.foldl settle none = x := by
  induction h with
  | nil => rfl
  | set hnewest hpos =>
    rw [foldl_settle_newest hnewest, ofRow_of_pos hpos]
    exact foldl_settle_of_older fun r' hr' => hnewest r' (List.mem_append_right _ hr')
  | clear hnewest hclear _ ih => rw [foldl_settle_newest hnewest, ofRow_of_nonpos hclear, ih]

/-- Of rows of different updates one is the newest. -/
theorem exists_newest (hne : rows.Pairwise fun r r' => r.updateId ≠ r'.updateId) (h : rows ≠ []) :
    ∃ before r after, rows = before ++ r :: after ∧
      ∀ r' ∈ before ++ after, r'.updateId < r.updateId := by
  induction rows with
  | nil => exact absurd rfl h
  | cons r rows ih =>
    obtain ⟨hr, hrows⟩ := List.pairwise_cons.mp hne
    rcases eq_or_ne rows [] with rfl | hrest
    · exact ⟨[], r, [], rfl, nofun⟩
    obtain ⟨before, m, after, rfl, hnewest⟩ := ih hrows hrest
    have hne' : r.updateId ≠ m.updateId := hr m (by simp)
    rcases lt_or_gt_of_ne hne' with hlt | hgt
    · exact ⟨r :: before, m, after, rfl, List.forall_mem_cons.mpr ⟨hlt, hnewest⟩⟩
    · refine ⟨[], r, before ++ m :: after, rfl, fun r' hr' => ?_⟩
      rw [List.nil_append] at hr'
      rcases List.mem_append.mp hr' with hr' | hr'
      · exact (hnewest r' (List.mem_append_left _ hr')).trans hgt
      · rcases List.mem_cons.mp hr' with rfl | hr'
        · exact hgt
        · exact (hnewest r' (List.mem_append_right _ hr')).trans hgt

theorem decides_foldl (hne : rows.Pairwise fun r r' => r.updateId ≠ r'.updateId) :
    Decides rows (rows.foldl settle none) := by
  induction hlen : rows.length using Nat.strong_induction_on generalizing rows with
  | _ n ih =>
    subst hlen
    rcases eq_or_ne rows [] with rfl | hrest
    · exact .nil
    obtain ⟨before, r, after, rfl, hnewest⟩ := exists_newest hne hrest
    rw [foldl_settle_newest hnewest]
    rcases lt_or_ge 0 r.amount.toRat with hpos | hclear
    · rw [ofRow_of_pos hpos, foldl_settle_of_older fun r' hr' =>
        hnewest r' (List.mem_append_right _ hr')]
      exact .set hnewest hpos
    · rw [ofRow_of_nonpos hclear]
      have hafter := (List.pairwise_cons.mp (List.pairwise_append.mp hne).2.1).2
      exact .clear hnewest hclear (ih after.length (by simp; omega) hafter rfl)

/-- **Rows for one price come to what the newest of them says**, and if that clears the level, to
what the rows after it come to. -/
theorem decides_iff (hne : rows.Pairwise fun r r' => r.updateId ≠ r'.updateId) :
    Decides rows x ↔ rows.foldl settle none = x :=
  ⟨Decides.foldl_eq, fun h => h ▸ decides_foldl hne⟩

end Standings

/-! ## A snapshot and the diffs after it -/

namespace LevelBook

variable {b b' : LevelBook} {rows : Rows} {n : ℕ} {ds : List (Rows × ℕ)} {s : Side} {p : Decimal}

/-- the book after some diffs, if it accepts each of them -/
def applyAll : LevelBook → List (Rows × ℕ) → Option LevelBook
  | b, [] => some b
  | b, d :: ds =>
    match b.apply d.1 d.2 with
    | (b', true) => b'.applyAll ds
    | (_, false) => none

/-- the rows for a price that a snapshot and the diffs after it bring, in the order they came in -/
def rowsFor (rows : Rows) (ds : List (Rows × ℕ)) (s : Side) (p : Decimal) : List Row :=
  ((rows :: ds.map Prod.fst).flatMap fun rows => rows.side s).filter fun r => r.price.Same p

/-- Diffs that are accepted write all their rows. -/
theorem side_applyAll (h : b.applyAll ds = some b') (s : Side) :
    b'.side s = (b.side s).writeAll (ds.flatMap fun d => d.1.side s) := by
  induction ds generalizing b with
  | nil =>
    cases h
    rfl
  | cons d ds ih =>
    unfold applyAll at h
    by_cases haccepts : b.Accepts d.2
    · obtain ⟨b₁, happly, -, -, hside⟩ := apply_of_accepts haccepts d.1
      rw [happly] at h
      rw [ih h, hside, List.flatMap_cons, Standings.writeAll, Standings.writeAll,
        Standings.writeAll, List.foldl_append]
    · rw [apply, if_neg haccepts] at h
      cases h

/-- The rows for a price that have come since the snapshot decide what stands there. -/
theorem find?_applyAll (h : (b.load rows n).applyAll ds = some b') (s : Side) (p : Decimal) :
    (b'.side s).find? p = (rowsFor rows ds s p).foldl Standings.settle none := by
  have hrows : (b'.side s) = Standings.writeAll .empty
      ((rows :: ds.map Prod.fst).flatMap fun rows => rows.side s) := by
    rw [side_applyAll h, side_load, List.flatMap_cons, List.flatMap_map, Standings.writeAll,
      Standings.writeAll, Standings.writeAll, List.foldl_append]
  rw [Ladder.find?_eq_rungAt, hrows, Standings.rungAt_writeAll, rowsFor]
  simp only [Decimal.same_iff, Ladder.rungAt_empty]

/-- A row on one side that is accepted is written there. -/
theorem side_apply_single {m : ℕ} (h : b.Accepts m) (s : Side) (r : Row) :
    ((b.apply (.single s r) m).1.side s) = (b.side s).write r := by
  obtain ⟨b', happly, -, -, hside⟩ := apply_of_accepts h (.single s r)
  rw [happly, hside, Rows.side_single, if_pos rfl]
  rfl

/-- A row that is older than the level it is for only makes the book as late as its diff. -/
theorem apply_single_of_older {m : ℕ} (h : b.Accepts m) {r : Row} {st : Standing}
    (hst : (b.side s).find? r.price = some st) (hlt : r.updateId < st.updateId) :
    b.apply (.single s r) m = ({ b with lastUpdateId := m }, true) := by
  have hwrite : (b.side s).write r = b.side s := by
    rw [Standings.write, hst]
    exact if_pos (by simpa using hlt)
  rw [apply, if_pos h]
  cases s with
  | buy =>
    simp only [side] at hwrite
    simp only [Rows.single, Standings.writeAll, List.foldl_cons, List.foldl_nil, hwrite]
  | sell =>
    simp only [side] at hwrite
    simp only [Rows.single, Standings.writeAll, List.foldl_cons, List.foldl_nil, hwrite]

/-- **The newest row for a price decides, as long as it sets the level.** After a snapshot and any
diffs that the book accepts, there stands at a price what the newest of all its rows says, whatever
order they came in; only if that one clears the level do the rows that came after it decide, in the
same way. A row that is older than the level at its price changes nothing, and where there is no
level any row takes effect. -/
theorem applyAll_decides (h : (b.load rows n).applyAll ds = some b')
    (hne : ∀ s p, (rowsFor rows ds s p).Pairwise fun r r' => r.updateId ≠ r'.updateId) (s : Side) :
    (∀ p x, (b'.side s).find? p = x ↔ Standings.Decides (rowsFor rows ds s p) x) ∧
      ∀ (r : Row) (m : ℕ), b'.Accepts m →
        (∀ st ∈ (b'.side s).find? r.price, r.updateId < st.updateId →
          b'.apply (.single s r) m = ({ b' with lastUpdateId := m }, true)) ∧
        ((b'.side s).find? r.price = none →
          ((b'.apply (.single s r) m).1.side s).find? r.price = Standings.ofRow r) := by
  constructor
  · intro p x
    rw [Standings.decides_iff (hne s p), find?_applyAll h]
  · intro r m haccepts
    refine ⟨fun st hst hlt => apply_single_of_older haccepts hst hlt, fun hnone => ?_⟩
    rw [Ladder.find?_eq_rungAt] at hnone
    rw [side_apply_single haccepts, Ladder.find?_eq_rungAt, Standings.rungAt_write_eq_settle,
      if_pos rfl, hnone]
    rfl

/-- a price bid -/
def quoted : Rows := ⟨[⟨.ofNat 50000, .one, 100⟩], []⟩

/-- The price is cleared, and a row comes that is older than the one that cleared it. -/
def clearedThenLate : List (Rows × ℕ) :=
  [(⟨[⟨.ofNat 50000, .zero, 105⟩], []⟩, 105), (⟨[⟨.ofNat 50000, .ofNat 9, 103⟩], []⟩, 106)]

/-- The book that a late row finds cleared: the level of the late row stands in it. -/
def afterLate : LevelBook :=
  ⟨"BTC-USD", ⟨[(.ofNat 50000, ⟨.ofNat 9, 103⟩)]⟩, .empty, 106, true⟩

theorem applyAll_clearedThenLate :
    ((new "BTC-USD").load quoted 100).applyAll clearedThenLate = some afterLate := by decide

theorem pairwise_rowsFor_clearedThenLate (s : Side) (p : Decimal) :
    (rowsFor quoted clearedThenLate s p).Pairwise fun r r' => r.updateId ≠ r'.updateId := by
  refine List.Pairwise.filter _ ?_
  cases s <;> decide

theorem applyAll_decides_clearedThenLate :
    ((new "BTC-USD").load quoted 100).applyAll clearedThenLate = some afterLate ∧
      (∀ s p, (rowsFor quoted clearedThenLate s p).Pairwise fun r r' => r.updateId ≠ r'.updateId) ∧
      (∀ p x, (afterLate.side .buy).find? p = x ↔
        Standings.Decides (rowsFor quoted clearedThenLate .buy p) x) ∧
      ∀ (r : Row) (m : ℕ), afterLate.Accepts m →
        (∀ st ∈ (afterLate.side .buy).find? r.price, r.updateId < st.updateId →
          afterLate.apply (.single .buy r) m = ({ afterLate with lastUpdateId := m }, true)) ∧
        ((afterLate.side .buy).find? r.price = none →
          ((afterLate.apply (.single .buy r) m).1.side .buy).find? r.price = Standings.ofRow r) :=
  ⟨applyAll_clearedThenLate, pairwise_rowsFor_clearedThenLate,
    applyAll_decides applyAll_clearedThenLate pairwise_rowsFor_clearedThenLate .buy⟩

/-- The newest of all rows for a price need not be what stands there in the end: a row that is older
than the one that cleared the level sets it again. -/
theorem older_row_after_clear :
    ¬ ∀ (b b' : LevelBook) (rows : Rows) (n : ℕ) (ds : List (Rows × ℕ)),
      (b.load rows n).applyAll ds = some b' →
      (∀ s p, (rowsFor rows ds s p).Pairwise fun r r' => r.updateId ≠ r'.updateId) →
      ∀ s p, ∀ r ∈ rowsFor rows ds s p,
        (∀ r' ∈ rowsFor rows ds s p, r'.updateId ≤ r.updateId) →
        (b'.side s).find? p = Standings.ofRow r := by
  intro h
  have hlast := h _ _ _ _ _ applyAll_clearedThenLate pairwise_rowsFor_clearedThenLate .buy
    (.ofNat 50000) ⟨.ofNat 50000, .zero, 105⟩ (by decide) (by decide)
  revert hlast
  decide

end LevelBook

end MarketFeed
