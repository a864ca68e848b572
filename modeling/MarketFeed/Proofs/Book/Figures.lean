import MarketFeed.Proofs.Book.Signs

/-!
# The figures of levels

The figures of a book come from sums and differences, from the mean of the best prices and from
quotients by it and by the total volume. For prices and quantities of the size that the exchange
uses, all sums are exact, and so all of the figures have a result.

## Main definitions

* `Decimal.IsPrice`: a positive quantity below `10 ^ 20`
* `Level.total`: the exact total of the quantities of levels
* `Level.Moderate`: levels at prices whose total stays below `10 ^ 20`
* `Metrics.Computed`: where the figures of levels come from

## Main results

* `pricePair_of_isPrice`, `exists_volumeImbalance`, `exists_volume`: the single figures
* `Metrics.compute_eq_ok_iff`: all figures have a result if each of them has one
* `Metrics.exists_compute`: all figures, with the exact depths
-/

namespace MarketFeed

open Decimal (IsQuantity)

/-- A price is a positive quantity below `10 ^ 20`. -/
structure Decimal.IsPrice (q : ℚ) : Prop where
  quantity : IsQuantity q
  pos : 0 < q
  lt : q < 10 ^ 20

open Decimal (IsPrice)

/-- A positive decimal with at most eight places is a price, if it is not too great. -/
theorem Decimal.IsPrice.of_scale_le {a : Decimal} (ha : 0 < a.coefficient) (hs : a.scale ≤ 8)
    (hlt : a.toRat < 10 ^ 20) : IsPrice a.toRat where
  quantity := .of_scale_le ha.le hs
  pos := by
    rw [Decimal.toRat_eq_div]
    exact div_pos (Int.cast_pos.mpr ha) (Decimal.ten_pow_pos _)
  lt := hlt

section Figures

variable {bid ask : Decimal}

theorem pricePair_of_isPrice (hbid : IsPrice bid.toRat) (hask : IsPrice ask.toRat) :
    PricePair bid ask :=
  ⟨hbid.pos, hask.pos, hbid.quantity.exists_add hask.quantity hbid.lt hask.lt⟩

/-- Two volumes have an imbalance, unless both are zero. -/
theorem exists_volumeImbalance (hbid : IsQuantity bid.toRat) (hask : IsQuantity ask.toRat)
    (hbid_lt : bid.toRat < 10 ^ 20) (hask_lt : ask.toRat < 10 ^ 20) :
    ∃ x, volumeImbalance bid ask = .ok x ∧ (x.isSome ↔ 0 < bid.toRat + ask.toRat) := by
  obtain ⟨total, hadd, -⟩ := Decimal.add_exact (hbid.exists_add hask hbid_lt hask_lt)
  obtain ⟨x, hx, hnone, -⟩ := exists_imbalance hbid.nonneg hask.nonneg
    (Decimal.plus_eq_ok_iff.mpr hadd)
  refine ⟨x, hx, ?_⟩
  rw [Option.isSome_iff_ne_none, Ne, hnone]
  constructor
  · intro hnot
    refine (add_nonneg hbid.nonneg hask.nonneg).lt_of_ne fun hzero => hnot ?_
    exact (add_eq_zero_iff_of_nonneg hbid.nonneg hask.nonneg).mp hzero.symm
  · rintro hpos ⟨hbid₀, hask₀⟩
    linarith

end Figures

/-! ## Levels -/

namespace Level

variable {levels : List Level}

/-- the exact total of the quantities of levels -/
def total (levels : List Level) : ℚ := (levels.map fun l => l.quantity.toRat).sum

/-- Levels stand at prices, with quantities whose total stays below `10 ^ 20`. -/
structure Moderate (levels : List Level) : Prop where
  price : ∀ l ∈ levels, IsPrice l.price.toRat
  quantity : ∀ l ∈ levels, IsQuantity l.quantity.toRat
  total_lt : total levels < 10 ^ 20

theorem isQuantity_total (h : ∀ l ∈ levels, IsQuantity l.quantity.toRat) :
    IsQuantity (total levels) := by
  induction levels with
  | nil => exact .zero
  | cons l levels ih =>
    obtain ⟨hl, hlevels⟩ := List.forall_mem_cons.mp h
    exact hl.add (ih hlevels)

theorem Moderate.take (h : Moderate levels) (n : ℕ) : Moderate (levels.take n) where
  price l hl := h.price l (List.mem_of_mem_take hl)
  quantity l hl := h.quantity l (List.mem_of_mem_take hl)
  total_lt := by
    have hle : total (levels.take n) ≤ total levels := by
      refine ((List.take_sublist n levels).map _).sum_le_sum fun q hq => ?_
      obtain ⟨l, hl, rfl⟩ := List.mem_map.mp hq
      exact (h.quantity l hl).nonneg
    exact hle.trans_lt h.total_lt

end Level

/-- The volume of levels is their exact total. -/
theorem exists_volume {levels : List Level} (h : Level.Moderate levels) :
    ∃ d, volume levels = .ok d ∧ d.toRat = Level.total levels := by
  have hexact : Decimal.SumsExactly .zero (levels.map Level.quantity) := by
    refine Decimal.sumsExactly_of_isQuantity (Decimal.toRat_zero ▸ .zero) ?_ ?_
    · exact List.forall_mem_map.mpr h.quantity
    · rw [Decimal.toRat_zero, zero_add, List.map_map]
      exact h.total_lt
  obtain ⟨d, hd, hval⟩ := Decimal.sum_of_sumsExactly hexact
  exact ⟨d, hd, by rw [hval, List.map_map]; rfl⟩

/-! ## All figures -/

namespace Metrics

variable {bids asks : List Level} {top : ℕ} {m : Metrics}

/-- Where the figures of levels come from. -/
structure Computed (bids asks : List Level) (top : ℕ) (m : Metrics) : Prop where
  midPrice : ofBest mid bids asks = .ok m.midPrice
  spreadBps : ofBest spread bids asks = .ok m.spreadBps
  imbalance : ∃ v w, volume (bids.take top) = .ok v ∧ volume (asks.take top) = .ok w ∧
    volumeImbalance v w = .ok m.imbalance
  bidDepth : volume bids = .ok m.bidDepth
  askDepth : volume asks = .ok m.askDepth
  bidLevels : m.bidLevels = bids.length
  askLevels : m.askLevels = asks.length

/-- The figures have a result if each of them has one. -/
theorem compute_eq_ok_iff : compute bids asks top = .ok m ↔ Computed bids asks top m := by
  constructor
  · intro h
    obtain ⟨midPrice, hmid, h⟩ := bind_eq_ok_iff.mp h
    obtain ⟨spreadBps, hspread, h⟩ := bind_eq_ok_iff.mp h
    obtain ⟨v, hv, h⟩ := bind_eq_ok_iff.mp h
    obtain ⟨w, hw, h⟩ := bind_eq_ok_iff.mp h
    obtain ⟨imbalance, himbalance, h⟩ := bind_eq_ok_iff.mp h
    obtain ⟨bidDepth, hbidDepth, h⟩ := bind_eq_ok_iff.mp h
    obtain ⟨askDepth, haskDepth, h⟩ := bind_eq_ok_iff.mp h
    cases h
    exact ⟨hmid, hspread, ⟨v, w, hv, hw, himbalance⟩, hbidDepth, haskDepth, rfl, rfl⟩
  · rintro ⟨hmid, hspread, ⟨v, w, hv, hw, himbalance⟩, hbidDepth, haskDepth, hbids, hasks⟩
    refine bind_eq_ok hmid (bind_eq_ok hspread (bind_eq_ok hv (bind_eq_ok hw ?_)))
    refine bind_eq_ok himbalance (bind_eq_ok hbidDepth (bind_eq_ok haskDepth ?_))
    rw [← hbids, ← hasks]
    rfl

/-- A figure of the best prices has a result where every two prices have one. -/
theorem exists_ofBest (hbids : Level.Moderate bids) (hasks : Level.Moderate asks)
    {figure : Decimal → Decimal → Except Overflow (Option Decimal)}
    (hfigure : ∀ bid ask : Decimal, IsPrice bid.toRat → IsPrice ask.toRat →
      ∃ x, figure bid ask = .ok (some x)) :
    ∃ x, ofBest figure bids asks = .ok x ∧ (x.isSome ↔ bids ≠ [] ∧ asks ≠ []) := by
  rcases bids with - | ⟨bid, bids⟩
  · exact ⟨none, rfl, by simp⟩
  rcases asks with - | ⟨ask, asks⟩
  · exact ⟨none, rfl, by simp⟩
  obtain ⟨x, hx⟩ := hfigure bid.price ask.price (hbids.price bid List.mem_cons_self)
    (hasks.price ask List.mem_cons_self)
  exact ⟨some x, hx, by simp⟩

/-- The figures of levels: the depths are exact, and no figure is left out for the size of its
numbers. -/
structure FiguresOf (bids asks : List Level) (top : ℕ) (m : Metrics) : Prop where
  bidDepth : m.bidDepth.toRat = Level.total bids
  askDepth : m.askDepth.toRat = Level.total asks
  midPrice : m.midPrice.isSome ↔ bids ≠ [] ∧ asks ≠ []
  spreadBps : m.spreadBps.isSome ↔ bids ≠ [] ∧ asks ≠ []
  imbalance : m.imbalance.isSome ↔ 0 < Level.total (bids.take top) + Level.total (asks.take top)

/-- **All figures of levels of moderate size have a result**, and the depths are exact. -/
theorem exists_compute (hbids : Level.Moderate bids)
    (hasks : Level.Moderate asks) (top : ℕ) :
    ∃ m, compute bids asks top = .ok m ∧ m.FiguresOf bids asks top := by
  obtain ⟨midPrice, hmid, hmid_some⟩ := exists_ofBest hbids hasks fun bid ask hbid hask => by
    obtain ⟨total, m, hm, -⟩ := (pricePair_of_isPrice hbid hask).exists_mid
    exact ⟨m, hm⟩
  obtain ⟨spreadBps, hspread, hspread_some⟩ :=
    exists_ofBest hbids hasks fun bid ask hbid hask => by
      obtain ⟨m, x, -, hx, -⟩ := (pricePair_of_isPrice hbid hask).exists_spread
      exact ⟨x, hx⟩
  have hbidsTop := hbids.take top
  have hasksTop := hasks.take top
  obtain ⟨topBids, htopBids, hbidsVal⟩ := exists_volume hbidsTop
  obtain ⟨topAsks, htopAsks, hasksVal⟩ := exists_volume hasksTop
  obtain ⟨imbalance, himbalance, himbalance_some⟩ := exists_volumeImbalance
    (hbidsVal ▸ Level.isQuantity_total hbidsTop.quantity)
    (hasksVal ▸ Level.isQuantity_total hasksTop.quantity)
    (hbidsVal ▸ hbidsTop.total_lt) (hasksVal ▸ hasksTop.total_lt)
  rw [hbidsVal, hasksVal] at himbalance_some
  obtain ⟨bidDepth, hbidDepth, hbidVal⟩ := exists_volume hbids
  obtain ⟨askDepth, haskDepth, haskVal⟩ := exists_volume hasks
  refine ⟨⟨midPrice, spreadBps, imbalance, bidDepth, askDepth, bids.length, asks.length⟩, ?_,
    hbidVal, haskVal, hmid_some, hspread_some, himbalance_some⟩
  exact compute_eq_ok_iff.mpr ⟨hmid, hspread, ⟨topBids, topAsks, htopBids, htopAsks, himbalance⟩,
    hbidDepth, haskDepth, rfl, rfl⟩

end Metrics

end MarketFeed
