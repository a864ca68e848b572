import MarketFeed.Proofs.Book.Figures
import MarketFeed.Proofs.Book.Proper

/-!
# What the figures tell of a book

The amounts of a book are positive, so a volume is positive unless there are no levels, and the
imbalance of the best levels tells which side is heavier. The spread of the best prices tells
whether they cross, and with it whether the book is healthy. All of this holds for the rounded
figures of any book, as long as the volumes are within the range.

## Main definitions

* `LevelBook.VolumesFit`: the sums over the levels of a book are within the range
* `LevelBook.PricesFit`: the figures of its best prices are within the range

## Main results

* `volume_nonneg`, `volume_eq_zero_iff`: volumes of positive quantities
* `LevelBook.Proper.exists_state_iff`: a state overflows just if the prices or the volumes do
* `LevelBook.after_imbalance`: the imbalance of any book is within one and leans to the heavier side
* `LevelBook.after_health`: the health of any book is that of its best prices
-/

namespace MarketFeed

/-! ## Volumes -/

/-- Adding numbers that are not negative does not make a sum smaller, rounded as it is: the sum
before is no greater than the exact one, and so no greater than the rounded one. -/
theorem Decimal.le_of_foldlM_plus {a d : Decimal} {bs : List Decimal}
    (hbs : ∀ b ∈ bs, 0 ≤ b.toRat) (h : bs.foldlM plus a = .ok d) : a.toRat ≤ d.toRat := by
  induction bs generalizing a with
  | nil =>
    cases h
    exact le_rfl
  | cons b bs ih =>
    obtain ⟨hb, hbs⟩ := List.forall_mem_cons.mp hbs
    rw [List.foldlM_cons] at h
    obtain ⟨c, hc, hrest⟩ := bind_eq_ok_iff.mp h
    have hstep := (add_rounded (plus_eq_ok_iff.mp hc)).faithful.ge a (by linarith)
    exact hstep.trans (ih hbs hrest)

section Volume

variable {levels : List Level} {v : Decimal}

theorem volume_nonneg (hpos : ∀ l ∈ levels, 0 < l.quantity.toRat) (h : volume levels = .ok v) :
    0 ≤ v.toRat := by
  have hle := Decimal.le_of_foldlM_plus (List.forall_mem_map.mpr fun l hl => (hpos l hl).le) h
  rwa [Decimal.toRat_zero] at hle

/-- Only the volume of no levels is zero. -/
theorem volume_eq_zero_iff (hpos : ∀ l ∈ levels, 0 < l.quantity.toRat)
    (h : volume levels = .ok v) : v.toRat = 0 ↔ levels = [] := by
  rcases levels with - | ⟨l, levels⟩
  · cases h
    simp
  obtain ⟨hl, hlevels⟩ := List.forall_mem_cons.mp hpos
  unfold volume Decimal.sum at h
  rw [List.map_cons, List.foldlM_cons] at h
  obtain ⟨a, ha, hrest⟩ := bind_eq_ok_iff.mp h
  have hfirst := (Decimal.add_rounded (Decimal.plus_eq_ok_iff.mp ha)).faithful.ge l.quantity
    (by rw [Decimal.toRat_zero, zero_add])
  have hle := Decimal.le_of_foldlM_plus
    (List.forall_mem_map.mpr fun l hl => (hlevels l hl).le) hrest
  constructor
  · intro hzero
    linarith
  · exact nofun

end Volume

/-! ## Best prices -/

namespace Metrics

variable {bids asks : List Level} {top : ℕ} {m : Metrics} {bid ask s : Decimal}
  {figure : Decimal → Decimal → Except Overflow (Option Decimal)}

theorem ofBest_of_head (hbid : bid ∈ bids.head?.map Level.price)
    (hask : ask ∈ asks.head?.map Level.price) : ofBest figure bids asks = figure bid ask := by
  rcases bids with - | ⟨l, bids⟩
  · cases hbid
  rcases asks with - | ⟨l', asks⟩
  · cases hask
  cases hbid
  cases hask
  rfl

/-- A figure of the best prices is computed if it is for those that are there. -/
theorem exists_ofBest_iff : (∃ x, ofBest figure bids asks = .ok x) ↔
    ∀ bid ∈ bids.head?.map Level.price, ∀ ask ∈ asks.head?.map Level.price,
      ∃ x, figure bid ask = .ok x := by
  constructor
  · intro h bid hbid ask hask
    rwa [ofBest_of_head hbid hask] at h
  · intro h
    rcases bids with - | ⟨bid, bids⟩
    · exact ⟨none, rfl⟩
    rcases asks with - | ⟨ask, asks⟩
    · exact ⟨none, rfl⟩
    exact h bid.price rfl ask.price rfl

/-- Figures of an empty side are not healthy. -/
theorem Computed.not_isHealthy (h : Computed bids asks top m) (hempty : bids = [] ∨ asks = []) :
    ¬ m.IsHealthy := by
  rintro ⟨hbids, hasks, -⟩
  rw [h.bidLevels, List.length_pos_iff] at hbids
  rw [h.askLevels, List.length_pos_iff] at hasks
  exact hempty.elim hbids hasks

/-- Figures of two sides are healthy if their spread is not negative. -/
theorem Computed.isHealthy_iff (h : Computed bids asks top m)
    (hbid : bid ∈ bids.head?.map Level.price) (hask : ask ∈ asks.head?.map Level.price)
    (hspread : spread bid ask = .ok (some s)) : m.IsHealthy ↔ 0 ≤ s.toRat := by
  have hs : m.spreadBps = some s := by
    have hbest := h.spreadBps
    rw [ofBest_of_head hbid hask, hspread] at hbest
    exact (Except.ok.inj hbest).symm
  constructor
  · rintro ⟨-, -, s', hs', hle⟩
    cases hs.symm.trans hs'
    rwa [Decimal.le_iff, Decimal.toRat_zero] at hle
  · intro hle
    refine ⟨?_, ?_, s, hs, ?_⟩
    · rw [h.bidLevels, List.length_pos_iff]
      rintro rfl
      cases hbid
    · rw [h.askLevels, List.length_pos_iff]
      rintro rfl
      cases hask
    · rwa [Decimal.le_iff, Decimal.toRat_zero]

end Metrics

/-! ## Books -/

namespace LevelBook

variable {b : LevelBook} {n : ℕ} {v w total : Decimal}

/-- The volumes of a book are within the range: that of each side, and those of the best levels
with their sum. -/
structure VolumesFit (b : LevelBook) : Prop where
  bids : ∃ v, volume b.bidLevels = .ok v
  asks : ∃ v, volume b.askLevels = .ok v
  top : ∃ v w total, volume (b.bidLevels.take imbalanceLevels) = .ok v ∧
    volume (b.askLevels.take imbalanceLevels) = .ok w ∧ v.plus w = .ok total

/-- The best prices of a book fit, if both sides have one. -/
def PricesFit (b : LevelBook) : Prop :=
  ∀ bid ∈ b.bestBid, ∀ ask ∈ b.bestAsk, MarketFeed.PricesFit bid ask

theorem pricesFit_iff {bid ask : Decimal} (hbid : bid ∈ b.bestBid) (hask : ask ∈ b.bestAsk) :
    b.PricesFit ↔ MarketFeed.PricesFit bid ask := by
  constructor
  · exact fun h => h bid hbid ask hask
  · intro h bid' hbid' ask' hask'
    obtain rfl := Option.mem_unique hbid hbid'
    obtain rfl := Option.mem_unique hask hask'
    exact h

theorem pricesFit_of_empty (h : b.bidLevels = [] ∨ b.askLevels = []) : b.PricesFit := by
  intro bid hbid ask hask
  rw [bestBid_eq] at hbid
  rw [bestAsk_eq] at hask
  rcases h with h | h
  · rw [h] at hbid
    exact nomatch hbid
  · rw [h] at hask
    exact nomatch hask

theorem Proper.bid_quantity_pos (h : b.Proper) (n : ℕ) :
    ∀ l ∈ b.bidLevels.take n, 0 < l.quantity.toRat := fun l hl =>
  h.quantity_pos l (List.mem_append_left _ (List.mem_of_mem_take hl))

theorem Proper.ask_quantity_pos (h : b.Proper) (n : ℕ) :
    ∀ l ∈ b.askLevels.take n, 0 < l.quantity.toRat := fun l hl =>
  h.quantity_pos l (List.mem_append_right _ (List.mem_of_mem_take hl))

/-- **The best levels of a proper book have an imbalance**, unless there are none on both sides. -/
theorem Proper.exists_imbalance (h : b.Proper) (hv : volume (b.bidLevels.take n) = .ok v)
    (hw : volume (b.askLevels.take n) = .ok w) (hplus : v.plus w = .ok total) :
    ∃ x, b.imbalance n = .ok x ∧ (x = none ↔ b.bidLevels.take n = [] ∧ b.askLevels.take n = []) ∧
      ∀ y ∈ x, ImbalanceOf v.toRat w.toRat y.toRat := by
  have hbids := h.bid_quantity_pos n
  have hasks := h.ask_quantity_pos n
  obtain ⟨x, hx, hnone, himbalance⟩ := MarketFeed.exists_imbalance (volume_nonneg hbids hv)
    (volume_nonneg hasks hw) hplus
  rw [volume_eq_zero_iff hbids hv, volume_eq_zero_iff hasks hw] at hnone
  exact ⟨x, bind_eq_ok hv (bind_eq_ok hw hx), hnone, himbalance⟩

/-- **The state of a proper book overflows just if its prices or its volumes do**, at any depth. -/
theorem Proper.exists_state_iff (h : b.Proper) (depth : ℕ) :
    (∃ x, b.state depth = .ok x) ↔ b.PricesFit ∧ b.VolumesFit := by
  have hprices : b.PricesFit ↔ ∃ x, Metrics.ofBest spread b.bidLevels b.askLevels = .ok x := by
    simp only [Metrics.exists_ofBest_iff, exists_spread_iff, PricesFit, bestBid_eq, bestAsk_eq]
  rw [hprices]
  constructor
  · rintro ⟨x, hx⟩
    obtain ⟨m, hm, -⟩ := state_eq_ok hx
    obtain ⟨-, hspread, ⟨v, w, hv, hw, himbalance⟩, hbids, hasks, -⟩ :=
      Metrics.compute_eq_ok_iff.mp hm
    obtain ⟨total, hplus, -⟩ := bind_eq_ok_iff.mp himbalance
    exact ⟨⟨_, hspread⟩, ⟨_, hbids⟩, ⟨_, hasks⟩, v, w, total, hv, hw, hplus⟩
  · rintro ⟨hspread, ⟨bidDepth, hbids⟩, ⟨askDepth, hasks⟩, v, w, total, hv, hw, hplus⟩
    obtain ⟨midPrice, hmid⟩ : ∃ x, Metrics.ofBest mid b.bidLevels b.askLevels = .ok x := by
      rw [Metrics.exists_ofBest_iff] at hspread ⊢
      intro bid hbid ask hask
      exact exists_mid_iff.mpr (exists_spread_iff.mp (hspread bid hbid ask hask)).total
    obtain ⟨spreadBps, hspread⟩ := hspread
    obtain ⟨x, hx, -⟩ := MarketFeed.exists_imbalance (volume_nonneg (h.bid_quantity_pos _) hv)
      (volume_nonneg (h.ask_quantity_pos _) hw) hplus
    have hfigures : Metrics.Computed b.bidLevels b.askLevels imbalanceLevels
        ⟨midPrice, spreadBps, x, bidDepth, askDepth, b.bidLevels.length, b.askLevels.length⟩ :=
      ⟨hmid, hspread, ⟨v, w, hv, hw, hx⟩, hbids, hasks, rfl, rfl⟩
    exact ⟨_, bind_eq_ok (Metrics.compute_eq_ok_iff.mpr hfigures) rfl⟩

/-- **The imbalance of any book stays in range.** Where the volumes of the best `n` levels of each
side and their sum do not overflow, there is no imbalance just if there are no such levels;
otherwise it is between -1 and 1, leans to no smaller volume, and is 1 or -1 if only one side has
levels. With the volumes exchanged it is the opposite, and at any depth the figures give that of the
best five levels. -/
theorem after_imbalance (id : String) (cs : List Change) :
    (∀ n v w total, volume ((after id cs).bidLevels.take n) = .ok v →
      volume ((after id cs).askLevels.take n) = .ok w → v.plus w = .ok total →
        ∃ x, (after id cs).imbalance n = .ok x ∧
          (x = none ↔ (after id cs).bidLevels.take n = [] ∧ (after id cs).askLevels.take n = []) ∧
          ∀ y ∈ x, -1 ≤ y.toRat ∧ y.toRat ≤ 1 ∧
            (w.toRat ≤ v.toRat → 0 ≤ y.toRat) ∧ (v.toRat ≤ w.toRat → y.toRat ≤ 0) ∧
            ((after id cs).askLevels.take n = [] → y.toRat = 1) ∧
            ((after id cs).bidLevels.take n = [] → y.toRat = -1)) ∧
      (∀ v w, volumeImbalance w v = (volumeImbalance v w).map (Option.map Decimal.neg)) ∧
      ∀ depth x, (after id cs).state depth = .ok x →
        (after id cs).imbalance 5 = .ok x.metrics.imbalance := by
  have hproper := proper_after id cs
  generalize after id cs = b at *
  refine ⟨?_, volumeImbalance_swap, ?_⟩
  · intro n v w total hv hw hplus
    obtain ⟨x, hx, hnone, himbalance⟩ := hproper.exists_imbalance hv hw hplus
    refine ⟨x, hx, hnone, ?_⟩
    intro y hy
    have h := himbalance y hy
    refine ⟨h.ge, h.le, h.nonneg, h.nonpos, ?_, ?_⟩
    · intro hempty
      exact h.eq_one ((volume_eq_zero_iff (hproper.ask_quantity_pos n) hw).mpr hempty)
    · intro hempty
      exact h.eq_neg_one ((volume_eq_zero_iff (hproper.bid_quantity_pos n) hv).mpr hempty)
  · intro depth x hx
    obtain ⟨m, hm, rfl⟩ := state_eq_ok hx
    obtain ⟨v, w, hv, hw, himbalance⟩ := (Metrics.compute_eq_ok_iff.mp hm).imbalance
    exact bind_eq_ok hv (bind_eq_ok hw himbalance)

/-- a book with a bid above the ask -/
def crossed : List Change :=
  [.load ⟨[⟨.ofNat 31, .one, 1⟩], [⟨.ofNat 30, .ofNat 11, 1⟩]⟩ 1]

theorem after_imbalance_crossed : ∃ y : Decimal,
    (after "BTC-USD" crossed).imbalance 5 = .ok (some y) ∧ -1 ≤ y.toRat ∧ y.toRat ≤ 0 := by
  obtain ⟨x, hx, hnone, hrange⟩ := (after_imbalance "BTC-USD" crossed).1 5 .one (.ofNat 11)
    (.ofNat 12) (by decide) (by decide) (by decide)
  cases x with
  | none => exact absurd (hnone.mp rfl).1 (by decide)
  | some y =>
    obtain ⟨hge, -, -, hnonpos, -⟩ := hrange y rfl
    exact ⟨y, hx, hge, hnonpos (by norm_num [Decimal.toRat_one, Decimal.toRat_ofNat])⟩

/-- **The health of any book is that of its best prices.** Two positive prices with a sum that is a
decimal have a mean between them and a spread with the sign of their distance, unless the distance
is less than one part in `10 ^ 28` of the mean. So a book with such best prices, whose figures have
a result just if the volumes do not overflow, is healthy if the prices do not cross and is not if
they cross by that part; and a book with an empty side is never healthy. -/
theorem after_health (id : String) (cs : List Change) (depth : ℕ) :
    (∀ bid ask : Decimal, PricePair bid ask → ∃ m s,
      mid bid ask = .ok (some m) ∧ spread bid ask = .ok (some s) ∧ 0 < m.toRat ∧
        min bid.toRat ask.toRat ≤ m.toRat ∧ m.toRat ≤ max bid.toRat ask.toRat ∧
          SpreadOf bid.toRat ask.toRat m.toRat s.toRat) ∧
      (∀ bid ∈ (after id cs).bestBid, ∀ ask ∈ (after id cs).bestAsk, PricePair bid ask →
        ((∃ x, (after id cs).state depth = .ok x) ↔ (after id cs).VolumesFit) ∧
          ∀ x, (after id cs).state depth = .ok x →
            (bid.toRat ≤ ask.toRat → x.metrics.IsHealthy) ∧
              ∀ m, mid bid ask = .ok (some m) → 1 / 10 ^ 28 * m.toRat ≤ bid.toRat - ask.toRat →
                ¬ x.metrics.IsHealthy) ∧
      ((after id cs).bidLevels = [] ∨ (after id cs).askLevels = [] →
        ((∃ x, (after id cs).state depth = .ok x) ↔ (after id cs).VolumesFit) ∧
          ∀ x, (after id cs).state depth = .ok x → ¬ x.metrics.IsHealthy) := by
  have hproper := proper_after id cs
  generalize after id cs = b at *
  refine ⟨fun bid ask => PricePair.exists_spread, ?_, ?_⟩
  · intro bid hbid ask hask hpair
    obtain ⟨m, s, hmid, hspread, -, -, -, hs⟩ := hpair.exists_spread
    have hfit : b.PricesFit := (pricesFit_iff hbid hask).mpr (exists_spread_iff.mp ⟨_, hspread⟩)
    rw [bestBid_eq] at hbid
    rw [bestAsk_eq] at hask
    constructor
    · exact (hproper.exists_state_iff depth).trans (and_iff_right hfit)
    · intro x hx
      obtain ⟨figures, hfigures, rfl⟩ := state_eq_ok hx
      have hhealthy := (Metrics.compute_eq_ok_iff.mp hfigures).isHealthy_iff hbid hask hspread
      dsimp only
      rw [hhealthy]
      refine ⟨hs.nonneg, ?_⟩
      intro m' hm' hcrossed
      cases hmid.symm.trans hm'
      exact not_le.mpr (hs.neg hcrossed)
  · intro hempty
    constructor
    · exact (hproper.exists_state_iff depth).trans (and_iff_right (pricesFit_of_empty hempty))
    · intro x hx
      obtain ⟨figures, hfigures, rfl⟩ := state_eq_ok hx
      exact (Metrics.compute_eq_ok_iff.mp hfigures).not_isHealthy hempty

theorem after_health_crossed : PricePair (.ofNat 31) (.ofNat 30) ∧
    ∃ x, (after "BTC-USD" crossed).state 1 = .ok x ∧ ¬ x.metrics.IsHealthy := by
  have hpair : PricePair (.ofNat 31) (.ofNat 30) :=
    ⟨by norm_num, by norm_num, .ofNat 61, by norm_num⟩
  obtain ⟨hfigures, hbest, -⟩ := after_health "BTC-USD" crossed 1
  obtain ⟨hstate, hhealth⟩ := hbest (.ofNat 31) (by decide) (.ofNat 30) (by decide) hpair
  obtain ⟨x, hx⟩ := hstate.mpr ⟨⟨.one, by decide⟩, ⟨.ofNat 11, by decide⟩, .one, .ofNat 11,
    .ofNat 12, by decide, by decide, by decide⟩
  obtain ⟨m, s, hmid, -, -, -, hmax, -⟩ := hfigures _ _ hpair
  refine ⟨hpair, x, hx, (hhealth x hx).2 m hmid ?_⟩
  norm_num at hmax ⊢
  linarith

end LevelBook

end MarketFeed
