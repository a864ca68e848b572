import MarketFeed.Proofs.Book.Consistency
import MarketFeed.Proofs.Decimal.ByValue

/-!
# Books by value

The amounts of two books may be spelled differently. As long as they stand at the same prices and
have the same values, rows of the same values keep it so, and the states of the books end in the
same way, with the same figures.

## Main definitions

* `Standings.Same`, `LevelBook.Same`: the same levels by value, set by the same updates
* `Level.Same`, `Metrics.Same`, `BookState.Same`: the same levels, figures and states by value

## Main results

* `LevelBook.Same.load`, `LevelBook.Same.apply`: rows of the same values keep books the same
* `LevelBook.Same.state`: their states end in the same way
-/

namespace MarketFeed

/-- One update, with an amount of one value. -/
structure Standing.Same (s s' : Standing) : Prop where
  amount : s.amount.Same s'.amount
  updateId_eq : s.updateId = s'.updateId

/-- A row of one update for one price, with an amount of one value. -/
structure Row.Same (r r' : Row) : Prop where
  price_eq : r.price = r'.price
  amount : r.amount.Same r'.amount
  updateId_eq : r.updateId = r'.updateId

/-- The same rows on both sides. -/
structure Rows.Same (rows rows' : Rows) : Prop where
  bids : List.Forall₂ Row.Same rows.bids rows'.bids
  asks : List.Forall₂ Row.Same rows.asks rows'.asks

theorem Rows.Same.none : Rows.none.Same .none := ⟨.nil, .nil⟩

theorem Rows.Same.single {r r' : Row} (h : r.Same r') (s : Side) :
    (Rows.single s r).Same (.single s r') := by
  cases s with
  | buy => exact ⟨.cons h .nil, .nil⟩
  | sell => exact ⟨.nil, .cons h .nil⟩

/-! ## Levels -/

/-- A price and a quantity of one value. -/
structure Level.Same (l l' : Level) : Prop where
  price_eq : l.price = l'.price
  quantity : l.quantity.Same l'.quantity

namespace Standings

/-- The same prices, with levels of the same values. -/
def Same (l l' : Standings) : Prop := Ladder.Related Standing.Same l l'

namespace Same

variable {l l' : Standings} {r r' : Row} {rows rows' : List Row}

theorem refl (l : Standings) : l.Same l :=
  List.forall₂_same.mpr fun _ _ => ⟨rfl, .refl _, rfl⟩

theorem write (h : l.Same l') (hr : r.Same r') : (l.write r).Same (l'.write r') := by
  have hlate : (l.find? r.price).any (fun s => r.updateId < s.updateId) =
      (l'.find? r.price).any fun s => r.updateId < s.updateId := by
    have hrung := Ladder.Related.find? h r.price
    generalize l.find? r.price = s at hrung
    generalize l'.find? r.price = s' at hrung
    cases hrung with
    | none => rfl
    | some hs => rw [Option.any_some, Option.any_some, hs.updateId_eq]
  have hclear : r.amount ≤ .zero ↔ r'.amount ≤ .zero := by
    rw [Decimal.le_zero_iff, Decimal.le_zero_iff, Decimal.same_iff.mp hr.amount]
  unfold Standings.write
  rw [← hr.price_eq, ← hr.updateId_eq, ← hlate]
  simp only [← hclear]
  split_ifs
  · exact h
  · exact Ladder.Related.erase h r.price
  · exact Ladder.Related.insert h r.price ⟨hr.amount, rfl⟩

theorem writeAll (h : l.Same l') (hrows : List.Forall₂ Row.Same rows rows') :
    (l.writeAll rows).Same (l'.writeAll rows') := by
  induction hrows generalizing l l' with
  | nil => exact h
  | cons hr _ ih => exact ih (h.write hr)

end Same

theorem forall₂_levels {rs rs' : List (Decimal × Standing)}
    (h : List.Forall₂ (fun r r' => r.1 = r'.1 ∧ r.2.Same r'.2) rs rs') :
    List.Forall₂ Level.Same (levels rs) (levels rs') :=
  List.forall₂_map_left_iff.mpr (List.forall₂_map_right_iff.mpr
    (h.imp fun _ _ hr => ⟨hr.1, hr.2.amount⟩))

end Standings

/-! ## Figures -/

/-- The same figures, those of the volumes by value. -/
structure Metrics.Same (m m' : Metrics) : Prop where
  midPrice_eq : m.midPrice = m'.midPrice
  spreadBps_eq : m.spreadBps = m'.spreadBps
  imbalance : Option.Rel Decimal.Same m.imbalance m'.imbalance
  bidDepth : m.bidDepth.Same m'.bidDepth
  askDepth : m.askDepth.Same m'.askDepth
  bidLevels_eq : m.bidLevels = m'.bidLevels
  askLevels_eq : m.askLevels = m'.askLevels

section Figures

variable {bid bid' ask ask' : Decimal} {bids bids' asks asks' : List Level}

theorem sameOutcome_volume (h : List.Forall₂ Level.Same bids bids') :
    SameOutcome Decimal.Same (volume bids) (volume bids') :=
  Decimal.sameOutcome_sum (List.forall₂_map_left_iff.mpr (List.forall₂_map_right_iff.mpr
    (h.imp fun _ _ hl => hl.quantity)))

theorem sameOutcome_volumeImbalance (hbid : bid.Same bid') (hask : ask.Same ask') :
    SameOutcome (Option.Rel Decimal.Same) (volumeImbalance bid ask)
      (volumeImbalance bid' ask') := by
  refine (hbid.plus hask).bind fun total total' htotal => ?_
  have hsign : total ≤ .zero ↔ total' ≤ .zero := by
    rw [Decimal.le_zero_iff, Decimal.le_zero_iff, Decimal.same_iff.mp htotal]
  simp only [← hsign]
  split_ifs
  · exact .ok .none
  · exact (hbid.minus hask).bind fun _ _ hexcess =>
      (hexcess.dividedBy htotal).bind fun _ _ hshare => .ok (.some hshare)

/-- What is told by the best prices is the same. -/
theorem Metrics.ofBest_congr (figure : Decimal → Decimal → Except Overflow (Option Decimal))
    (hbids : List.Forall₂ Level.Same bids bids') (hasks : List.Forall₂ Level.Same asks asks') :
    ofBest figure bids asks = ofBest figure bids' asks' := by
  cases hbids with
  | nil => rfl
  | cons hbid _ =>
    cases hasks with
    | nil => rfl
    | cons hask _ => rw [ofBest, ofBest, hbid.price_eq, hask.price_eq]

theorem Metrics.sameOutcome_compute (hbids : List.Forall₂ Level.Same bids bids')
    (hasks : List.Forall₂ Level.Same asks asks') (top : ℕ) :
    SameOutcome Metrics.Same (compute bids asks top) (compute bids' asks' top) := by
  unfold compute
  rw [ofBest_congr mid hbids hasks, ofBest_congr spread hbids hasks]
  refine (SameOutcome.refl (R := Eq) (fun _ => rfl) _).bind fun _ _ hmid => ?_
  refine (SameOutcome.refl (R := Eq) (fun _ => rfl) _).bind fun _ _ hspread => ?_
  refine (sameOutcome_volume (List.forall₂_take top hbids)).bind fun _ _ hbid => ?_
  refine (sameOutcome_volume (List.forall₂_take top hasks)).bind fun _ _ hask => ?_
  refine (sameOutcome_volumeImbalance hbid hask).bind fun _ _ himbalance => ?_
  refine (sameOutcome_volume hbids).bind fun _ _ hbidDepth => ?_
  refine (sameOutcome_volume hasks).bind fun _ _ haskDepth => ?_
  exact .ok ⟨hmid, hspread, himbalance, hbidDepth, haskDepth, hbids.length_eq, hasks.length_eq⟩

end Figures

/-! ## Books -/

/-- The same best levels and figures by value. -/
structure BookState.Same (s s' : BookState) : Prop where
  productId_eq : s.productId = s'.productId
  lastUpdateId_eq : s.lastUpdateId = s'.lastUpdateId
  bids : List.Forall₂ Level.Same s.bids s'.bids
  asks : List.Forall₂ Level.Same s.asks s'.asks
  metrics : s.metrics.Same s'.metrics

/-- The same levels by value, after the same update. -/
structure LevelBook.Same (b b' : LevelBook) : Prop where
  productId_eq : b.productId = b'.productId
  bids : b.bids.Same b'.bids
  asks : b.asks.Same b'.asks
  lastUpdateId_eq : b.lastUpdateId = b'.lastUpdateId
  initialized_eq : b.initialized = b'.initialized

namespace LevelBook.Same

variable {b b' : LevelBook} {rows rows' : Rows}

theorem refl (b : LevelBook) : b.Same b := ⟨rfl, .refl _, .refl _, rfl, rfl⟩

theorem load (h : b.Same b') (hrows : rows.Same rows') (n : ℕ) :
    (b.load rows n).Same (b'.load rows' n) :=
  ⟨h.productId_eq, (Standings.Same.refl .empty).writeAll hrows.bids,
    (Standings.Same.refl .empty).writeAll hrows.asks, rfl, rfl⟩

theorem accepts_iff (h : b.Same b') (n : ℕ) : b.Accepts n ↔ b'.Accepts n := by
  rw [Accepts, Accepts, h.initialized_eq, h.lastUpdateId_eq]

/-- Rows of the same values are accepted by both books or by none, and keep them the same. -/
theorem apply (h : b.Same b') (hrows : rows.Same rows') (n : ℕ) :
    (b.apply rows n).1.Same (b'.apply rows' n).1 ∧ (b.apply rows n).2 = (b'.apply rows' n).2 := by
  unfold LevelBook.apply
  simp only [← h.accepts_iff n]
  split_ifs
  · exact ⟨⟨h.productId_eq, h.bids.writeAll hrows.bids, h.asks.writeAll hrows.asks, rfl,
      h.initialized_eq⟩, rfl⟩
  · exact ⟨h, rfl⟩

/-- **Books that are the same by value have the same states**, or they have none for the same
reason. -/
theorem state (h : b.Same b') (depth : ℕ) :
    SameOutcome BookState.Same (b.state depth) (b'.state depth) := by
  have hbids : List.Forall₂ Level.Same b.bidLevels b'.bidLevels :=
    Standings.forall₂_levels (List.forall₂_reverse_iff.mpr h.bids)
  have hasks : List.Forall₂ Level.Same b.askLevels b'.askLevels := Standings.forall₂_levels h.asks
  refine (Metrics.sameOutcome_compute hbids hasks _).bind fun _ _ hmetrics => ?_
  exact .ok ⟨h.productId_eq, h.lastUpdateId_eq, List.forall₂_take depth hbids,
    List.forall₂_take depth hasks, hmetrics⟩

end LevelBook.Same

end MarketFeed
