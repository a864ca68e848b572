import MarketFeed.Book.Metrics
import MarketFeed.Proofs.Decimal.Difference

/-!
# Figures keep their sides

The mid price, the spread and the imbalance are made in several rounded steps. No step moves its
result past a decimal, so what the exact figures tell of the two sides can be read off the rounded
ones: the mean lies between the prices, the spread has the sign of their distance, and the imbalance
leans to the greater volume and stays within one.

That the figures have a result at all is a matter of size: the difference of two volumes does not
exceed their sum, and the mean of two prices is at least a quarter of their sum, so that their
distance is not too great a multiple of it.

## Main definitions

* `PricePair`: two positive prices with a sum that is a decimal
* `PricesFit`: two prices whose figures do not overflow
* `MeanOf`: a rounded mean of two prices, with their sum
* `SpreadOf`, `ImbalanceOf`: what the signs of the figures tell

## Main results

* `exists_spread_iff`: a spread is computed if and only if the prices fit
* `PricePair.exists_mid`, `PricePair.exists_spread`: two prices have a mean and a spread
* `exists_imbalance`: two volumes have an imbalance if their sum is within the range
* `volumeImbalance_swap`: the imbalance of the volumes the other way round
-/

namespace MarketFeed

open Decimal (Faithful)

variable {bid ask total excess distance ratio m s x : Decimal}

/-! ## Prices -/

/-- Two positive prices with a sum that is a decimal. -/
structure PricePair (bid ask : Decimal) : Prop where
  bid_pos : 0 < bid.toRat
  ask_pos : 0 < ask.toRat
  exists_sum : ∃ d : Decimal, d.toRat = bid.toRat + ask.toRat

/-- A rounded mean of two prices, with their sum. -/
structure MeanOf (bid ask total m : Decimal) : Prop where
  add : bid.add ask = some total
  toRat : total.toRat = bid.toRat + ask.toRat
  /-- rounding takes off less than half of it -/
  le : total.toRat ≤ 4 * m.toRat

/-- The sum of two prices is within the range, and so are their distance and its quotient by the
mean if that is positive. -/
structure PricesFit (bid ask : Decimal) : Prop where
  total : Decimal.InRange (bid.toRat + ask.toRat)
  ratio (m : Decimal) (hmid : mid bid ask = .ok (some m)) (hpos : 0 < m.toRat) :
    ∃ distance, ask.sub bid = some distance ∧ Decimal.InRange (distance.toRat / m.toRat)

/-- What a spread tells of two prices with the mean `m`. -/
structure SpreadOf (bid ask m s : ℚ) : Prop where
  nonneg : bid ≤ ask → 0 ≤ s
  nonpos : ask ≤ bid → s ≤ 0
  /-- a distance of one part in `10 ^ 28` of the mean is not lost -/
  neg : 1 / 10 ^ 28 * m ≤ bid - ask → s < 0

/-- Half of a sum is not rounded below a quarter of it, unless to zero. -/
theorem le_four_mul_of_half (hpos : 0 < m.toRat)
    (hclose : |m.toRat - total.toRat / 2| ≤ |total.toRat / 2| / 10 ^ 27 + 1 / 10 ^ 28) :
    total.toRat ≤ 4 * m.toRat := by
  rcases le_or_gt total.toRat 0 with hneg | htotal
  · linarith
  obtain ⟨j, hj⟩ := Decimal.exists_units total (p := 28) (by exact_mod_cast total.scale_le)
  rcases le_or_gt j 4 with hfew | hmany
  · have hunit := Decimal.one_div_le_abs_toRat hpos.ne'
    rw [abs_of_pos hpos] at hunit
    have hcast : (j : ℚ) ≤ 4 := by exact_mod_cast hfew
    norm_num at hj hunit
    linarith
  · have hcast : (5 : ℚ) ≤ j := by exact_mod_cast hmany
    have hlow := (abs_le.mp hclose).1
    rw [abs_of_pos (by positivity)] at hlow
    norm_num at hj hlow
    linarith

/-- The mean lies between the prices. -/
theorem min_le_mean_le_max (h : Faithful ((bid.toRat + ask.toRat) / 2) m) :
    min bid.toRat ask.toRat ≤ m.toRat ∧ m.toRat ≤ max bid.toRat ask.toRat := by
  rcases le_total bid.toRat ask.toRat with hle | hle
  · rw [min_eq_left hle, max_eq_right hle]
    exact ⟨h.ge bid (by linarith), h.le ask (by linarith)⟩
  · rw [min_eq_right hle, max_eq_left hle]
    exact ⟨h.ge ask (by linarith), h.le bid (by linarith)⟩

/-- The three steps of a spread. -/
theorem spread_eq_ok (hmid : mid bid ask = .ok (some m)) (hpos : 0 < m.toRat)
    (hsub : ask.sub bid = some distance) (hdiv : distance.div m = some ratio) :
    spread bid ask = .ok (ratio.mul (.ofNat 10000)) := by
  refine bind_eq_ok hmid ?_
  simp only [if_neg (Decimal.not_le_zero_iff.mpr hpos)]
  exact bind_eq_ok (Decimal.minus_eq_ok_iff.mpr hsub)
    (bind_eq_ok (Decimal.dividedBy_eq_ok_iff.mpr hdiv) rfl)

/-- The steps of a spread keep the sign of the distance. Its exact ratio to the mean is no closer to
zero than a unit of the last place, which is a decimal. -/
theorem SpreadOf.of_faithful (hpos : 0 < m.toRat)
    (hratio : Faithful ((ask.toRat - bid.toRat) / m.toRat) ratio)
    (hs : Faithful (ratio.toRat * 10000) s) :
    SpreadOf bid.toRat ask.toRat m.toRat s.toRat := by
  refine ⟨?_, ?_, ?_⟩
  · intro hle
    have hnonneg := hratio.nonneg (div_nonneg (by linarith) hpos.le)
    exact hs.nonneg (by positivity)
  · intro hle
    have hnonpos := hratio.nonpos (div_nonpos_of_nonpos_of_nonneg (by linarith) hpos.le)
    exact hs.nonpos (by linarith)
  · intro hcrossed
    obtain ⟨unit, hunit⟩ : ∃ d : Decimal, d.toRat = -(1 / 10 ^ 28) :=
      Decimal.exists_toRat_of_units (p := 28) (j := -1) le_rfl (by norm_num)
        (by norm_num [Decimal.limit])
    have hle := hratio.le unit (by rw [hunit, div_le_iff₀ hpos]; linarith)
    have hneg : ratio.toRat < 0 := hle.trans_lt (by rw [hunit]; norm_num)
    exact (hs.le ratio (by linarith)).trans_lt hneg

/-- A mean is computed if the sum is. -/
theorem exists_mid_iff : (∃ x, mid bid ask = .ok x) ↔ Decimal.InRange (bid.toRat + ask.toRat) := by
  rw [← Decimal.exists_add_iff]
  constructor
  · rintro ⟨x, hx⟩
    obtain ⟨total, htotal, -⟩ := bind_eq_ok_iff.mp hx
    exact ⟨total, Decimal.plus_eq_ok_iff.mp htotal⟩
  · rintro ⟨total, htotal⟩
    exact ⟨_, bind_eq_ok (Decimal.plus_eq_ok_iff.mpr htotal) rfl⟩

/-- **A spread is computed if and only if the prices fit.** -/
theorem exists_spread_iff : (∃ x, spread bid ask = .ok x) ↔ PricesFit bid ask := by
  constructor
  · rintro ⟨x, hx⟩
    obtain ⟨mean, hmean, hx⟩ := bind_eq_ok_iff.mp hx
    refine ⟨exists_mid_iff.mp ⟨mean, hmean⟩, ?_⟩
    intro m hmid hpos
    obtain rfl := Except.ok.inj (hmean.symm.trans hmid)
    simp only [if_neg (Decimal.not_le_zero_iff.mpr hpos)] at hx
    obtain ⟨distance, hminus, hx⟩ := bind_eq_ok_iff.mp hx
    obtain ⟨ratio, hratio, -⟩ := bind_eq_ok_iff.mp hx
    have hrange := Decimal.exists_div_iff.mp ⟨ratio, Decimal.dividedBy_eq_ok_iff.mp hratio⟩
    exact ⟨distance, Decimal.minus_eq_ok_iff.mp hminus, hrange.2⟩
  · rintro ⟨htotal, hratio⟩
    obtain ⟨mean, hmid⟩ := exists_mid_iff.mpr htotal
    cases mean with
    | none => exact ⟨none, bind_eq_ok hmid rfl⟩
    | some m =>
      by_cases hpos : 0 < m.toRat
      · obtain ⟨distance, hsub, hrange⟩ := hratio m hmid hpos
        obtain ⟨ratio, hdiv⟩ := Decimal.exists_div hpos.ne' hrange
        exact ⟨_, spread_eq_ok hmid hpos hsub hdiv⟩
      · refine ⟨none, bind_eq_ok hmid ?_⟩
        simp only [if_pos (not_not.mp (mt Decimal.not_le_zero_iff.mp hpos))]
        rfl

namespace PricePair

/-- **Two prices have a mean**, which lies between them. -/
theorem exists_mid (h : PricePair bid ask) : ∃ total m, mid bid ask = .ok (some m) ∧
    MeanOf bid ask total m ∧ min bid.toRat ask.toRat ≤ m.toRat ∧
      m.toRat ≤ max bid.toRat ask.toRat := by
  obtain ⟨hbid, hask, hsum⟩ := h
  obtain ⟨total, hadd, hval⟩ := Decimal.add_exact hsum
  have htwo : (Decimal.ofNat 2).toRat = 2 := Decimal.toRat_ofNat 2 _
  have hhalf : 0 ≤ total.toRat / 2 := by linarith
  have hrange : Decimal.InRange (total.toRat / (Decimal.ofNat 2).toRat) := by
    have hle := (le_abs_self _).trans total.abs_toRat_le
    rw [Decimal.InRange, htwo, abs_of_nonneg hhalf]
    linarith
  obtain ⟨m, hdiv⟩ := Decimal.exists_div (htwo ▸ two_ne_zero) hrange
  have hround := Decimal.div_rounded hdiv
  rw [htwo] at hround
  have hbetween := min_le_mean_le_max (hval ▸ hround.faithful)
  have hpos := (lt_min hbid hask).trans_le hbetween.1
  refine ⟨total, m, ?_, ⟨hadd, hval, ?_⟩, hbetween⟩
  · exact bind_eq_ok (Decimal.plus_eq_ok_iff.mpr hadd) (congrArg Except.ok hdiv)
  · exact le_four_mul_of_half hpos hround.close

/-- The distance of two prices has a quotient by their mean, which is not great: the distance is at
most the sum, and that is at most four times the rounded mean. -/
theorem exists_ratio (h : PricePair bid ask) (hmean : MeanOf bid ask total m)
    (hpos : 0 < m.toRat) : ∃ distance ratio, ask.sub bid = some distance ∧
      distance.div m = some ratio ∧ |ratio.toRat| ≤ 4 ∧
        Faithful ((ask.toRat - bid.toRat) / m.toRat) ratio := by
  obtain ⟨hbid, hask, hsum⟩ := h
  obtain ⟨distance, hsub, hval⟩ := Decimal.sub_exact
    (Decimal.exists_toRat_sub hask.le hbid.le (by rwa [add_comm]))
  have hfour : |distance.toRat / m.toRat| ≤ 4 := by
    have htotal := hmean.toRat
    have hle := hmean.le
    rw [hval, abs_div, abs_of_pos hpos, div_le_iff₀ hpos, abs_le]
    constructor <;> linarith
  obtain ⟨ratio, hdiv⟩ := Decimal.exists_div hpos.ne'
    (hfour.trans_lt (by norm_num [Decimal.limit]))
  have hratio := (Decimal.div_rounded hdiv).faithful
  refine ⟨distance, ratio, hsub, hdiv, ?_, hval ▸ hratio⟩
  have hbound : (Decimal.ofNat 4).toRat = 4 := Decimal.toRat_ofNat 4 _
  rw [← hbound] at hfour ⊢
  exact hratio.abs_le_toRat hfour

/-- **Two prices have a spread**, with the sign of their distance. -/
theorem exists_spread (h : PricePair bid ask) : ∃ m s, mid bid ask = .ok (some m) ∧
    spread bid ask = .ok (some s) ∧ 0 < m.toRat ∧ min bid.toRat ask.toRat ≤ m.toRat ∧
      m.toRat ≤ max bid.toRat ask.toRat ∧ SpreadOf bid.toRat ask.toRat m.toRat s.toRat := by
  obtain ⟨total, m, hmid, hmean, hmin, hmax⟩ := h.exists_mid
  have hpos : 0 < m.toRat := (lt_min h.bid_pos h.ask_pos).trans_le hmin
  obtain ⟨distance, ratio, hsub, hdiv, hfour, hratio⟩ := h.exists_ratio hmean hpos
  have hten : (Decimal.ofNat 10000).toRat = 10000 := Decimal.toRat_ofNat 10000 _
  obtain ⟨s, hmul⟩ : ∃ s, ratio.mul (.ofNat 10000) = some s := by
    refine Decimal.exists_mul ?_
    rw [Decimal.InRange, hten, abs_mul]
    norm_num [Decimal.limit]
    linarith
  have hs := (Decimal.mul_rounded hmul).faithful
  rw [hten] at hs
  exact ⟨m, s, hmid, hmul ▸ spread_eq_ok hmid hpos hsub hdiv, hpos, hmin, hmax,
    .of_faithful hpos hratio hs⟩

end PricePair

/-! ## Volumes -/

/-- What an imbalance tells of two volumes. -/
structure ImbalanceOf (bids asks x : ℚ) : Prop where
  ge : -1 ≤ x
  le : x ≤ 1
  nonneg : asks ≤ bids → 0 ≤ x
  nonpos : bids ≤ asks → x ≤ 0
  eq_one : asks = 0 → x = 1
  eq_neg_one : bids = 0 → x = -1

/-- The steps of an imbalance. -/
theorem volumeImbalance_eq_ok (hadd : bid.add ask = some total) (hpos : 0 < total.toRat)
    (hsub : bid.sub ask = some excess) (hdiv : excess.div total = some x) :
    volumeImbalance bid ask = .ok (some x) := by
  refine bind_eq_ok (Decimal.plus_eq_ok_iff.mpr hadd) ?_
  rw [if_neg (Decimal.not_le_zero_iff.mpr hpos)]
  exact bind_eq_ok (Decimal.minus_eq_ok_iff.mpr hsub)
    (bind_eq_ok (Decimal.dividedBy_eq_ok_iff.mpr hdiv) rfl)

theorem volumeImbalance_eq_none (hadd : bid.add ask = some total) (hzero : total.toRat ≤ 0) :
    volumeImbalance bid ask = .ok none :=
  bind_eq_ok (Decimal.plus_eq_ok_iff.mpr hadd) (if_pos (Decimal.le_zero_iff.mpr hzero))

/-- A rounded difference does not exceed the rounded sum. -/
theorem abs_excess_le (hbid : 0 ≤ bid.toRat) (hask : 0 ≤ ask.toRat)
    (htotal : Faithful (bid.toRat + ask.toRat) total)
    (hexcess : Faithful (bid.toRat - ask.toRat) excess) : |excess.toRat| ≤ total.toRat := by
  have hupper := hexcess.le bid (by linarith)
  have hlower := hexcess.ge ask.neg (by rw [Decimal.toRat_neg]; linarith)
  rw [Decimal.toRat_neg] at hlower
  rw [abs_le]
  constructor
  · linarith [htotal.ge ask (by linarith)]
  · linarith [htotal.ge bid (by linarith)]

/-- The steps of an imbalance keep to the side of the greater volume. -/
theorem ImbalanceOf.of_faithful (hbid : 0 ≤ bid.toRat) (hask : 0 ≤ ask.toRat)
    (hpos : 0 < total.toRat) (htotal : Faithful (bid.toRat + ask.toRat) total)
    (hexcess : Faithful (bid.toRat - ask.toRat) excess)
    (hx : Faithful (excess.toRat / total.toRat) x) :
    ImbalanceOf bid.toRat ask.toRat x.toRat := by
  have hone : |excess.toRat / total.toRat| ≤ Decimal.one.toRat := by
    rw [Decimal.toRat_one, abs_div, abs_of_pos hpos, div_le_one hpos]
    exact abs_excess_le hbid hask htotal hexcess
  have hbound := abs_le.mp (hx.abs_le_toRat hone)
  rw [Decimal.toRat_one] at hbound
  refine ⟨hbound.1, hbound.2, ?_, ?_, ?_, ?_⟩
  · intro hle
    exact hx.nonneg (div_nonneg (hexcess.nonneg (by linarith)) hpos.le)
  · intro hle
    exact hx.nonpos (div_nonpos_of_nonpos_of_nonneg (hexcess.nonpos (by linarith)) hpos.le)
  · intro hask₀
    rw [hask₀, add_zero] at htotal
    rw [hask₀, sub_zero] at hexcess
    have hquotient : excess.toRat / total.toRat = 1 := by
      rw [hexcess.toRat_eq rfl, ← htotal.toRat_eq rfl, div_self hpos.ne']
    rw [← hquotient, hx.toRat_eq (Decimal.toRat_one.trans hquotient.symm)]
  · intro hbid₀
    rw [hbid₀, zero_add] at htotal
    rw [hbid₀, zero_sub, ← Decimal.toRat_neg] at hexcess
    have hquotient : excess.toRat / total.toRat = Decimal.one.neg.toRat := by
      rw [hexcess.toRat_eq rfl, Decimal.toRat_neg, ← htotal.toRat_eq rfl, Decimal.toRat_neg,
        Decimal.toRat_one, neg_div, div_self hpos.ne']
    rw [hx.toRat_eq hquotient.symm, hquotient, Decimal.toRat_neg, Decimal.toRat_one]

/-- **Two volumes have an imbalance**, unless both are zero, if their sum is within the range. -/
theorem exists_imbalance (hbid : 0 ≤ bid.toRat) (hask : 0 ≤ ask.toRat)
    (hplus : bid.plus ask = .ok total) : ∃ x, volumeImbalance bid ask = .ok x ∧
      (x = none ↔ bid.toRat = 0 ∧ ask.toRat = 0) ∧
        ∀ y ∈ x, ImbalanceOf bid.toRat ask.toRat y.toRat := by
  have hadd := Decimal.plus_eq_ok_iff.mp hplus
  have htotal := (Decimal.add_rounded hadd).faithful
  rcases le_or_gt total.toRat 0 with hzero | hpos
  · have hbids := htotal.ge bid (by linarith)
    have hasks := htotal.ge ask (by linarith)
    refine ⟨none, volumeImbalance_eq_none hadd hzero, ?_, ?_⟩
    · exact ⟨fun _ => ⟨by linarith, by linarith⟩, fun _ => rfl⟩
    · intro y hy
      cases hy
  obtain ⟨excess, hsub⟩ := Decimal.exists_sub hbid hask
  have hexcess := (Decimal.sub_rounded hsub).faithful
  have hone : |excess.toRat / total.toRat| ≤ 1 := by
    rw [abs_div, abs_of_pos hpos, div_le_one hpos]
    exact abs_excess_le hbid hask htotal hexcess
  obtain ⟨x, hdiv⟩ := Decimal.exists_div hpos.ne' (hone.trans_lt (by norm_num [Decimal.limit]))
  refine ⟨some x, volumeImbalance_eq_ok hadd hpos hsub hdiv, ?_, ?_⟩
  · constructor
    · intro h
      cases h
    · rintro ⟨hbid₀, hask₀⟩
      have hnonpos := htotal.nonpos (by linarith)
      linarith
  · intro y hy
    obtain rfl := Option.some.inj hy
    exact .of_faithful hbid hask hpos htotal hexcess (Decimal.div_rounded hdiv).faithful

/-- **The imbalance of the volumes the other way round is the opposite one**, and one of them
overflows if the other does. -/
theorem volumeImbalance_swap (bid ask : Decimal) :
    volumeImbalance ask bid = (volumeImbalance bid ask).map (Option.map Decimal.neg) := by
  by_cases hzero : bid.coefficient = 0 ∧ ask.coefficient = 0
  · have hbids := Decimal.toRat_eq_zero_iff.mpr hzero.1
    have hasks := Decimal.toRat_eq_zero_iff.mpr hzero.2
    rw [volumeImbalance_eq_none (if_pos hzero.1) hasks.le,
      volumeImbalance_eq_none (if_pos hzero.2) hbids.le]
    rfl
  rw [not_and_or, ← Decimal.toRat_eq_zero_iff, ← Decimal.toRat_eq_zero_iff] at hzero
  unfold volumeImbalance
  rw [← Decimal.plus_comm_of_ne hzero, Decimal.minus_swap hzero]
  cases bid.plus ask with
  | error e => rfl
  | ok total =>
    dsimp only [bind, Except.bind]
    split_ifs
    · rfl
    cases bid.minus ask with
    | error e => rfl
    | ok excess =>
      dsimp only [Except.map]
      rw [Decimal.neg_dividedBy]
      cases excess.dividedBy total <;> rfl

end MarketFeed
