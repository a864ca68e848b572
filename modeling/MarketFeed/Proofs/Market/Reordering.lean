import MarketFeed.Proofs.Market.Ranking

/-!
# Rankings of reordered markets

The rates of a list of markets are read from the list itself. Where every product is listed once,
they do not depend on where the reference markets stand, nor on the volumes in dollars. So a
reordered list has the same rates, each of its markets has the same volume, and the rankings of both
lists are descending arrangements of the same markets. A ranking is such a list as well: ranked
again it keeps its volumes, is in order already, and does not change.

## Main definitions

* `Market.unvalued`: a market without its volume in dollars
* `SameRanking`: two rankings of a list differ at most in the order of markets with one volume

## Main results

* `ofMarkets_perm`, `ofMarkets_map_valued`: the rates do not depend on the order or on the volumes
* `Market.dollars_eq_of_notLess`: markets that stand in either order have one volume
* `rankMarkets_reordered`: the ranking does not depend on the order, and is final
-/

namespace MarketFeed

open Decimal

variable {ms ms' : List Market} {m m' : Market}

/-! ## Rates -/

/-- Where every product is listed once, the price of a product is that of its market. -/
theorem lastPrice_iff_exists_mem (hids : (ms.map Market.productId).Nodup) {id : String}
    {p : Decimal} :
    LastPrice ms id p ↔ ∃ m ∈ ms, m.productId = id ∧ m.price = some p := by
  constructor
  · rintro ⟨before, m, after, rfl, hid, hprice, -⟩
    exact ⟨m, by simp, hid, hprice⟩
  · rintro ⟨m, hm, hid, hprice⟩
    obtain ⟨before, after, rfl⟩ := List.append_of_mem hm
    refine ⟨before, m, after, rfl, hid, hprice, ?_⟩
    intro m' hm' hid'
    rw [List.map_append, List.map_cons, List.nodup_append, List.nodup_cons] at hids
    have hsame : m.productId ∈ after.map Market.productId :=
      List.mem_map.mpr ⟨m', hm', hid'.trans hid.symm⟩
    exact absurd hsame hids.2.1.1

theorem lastPrice?_perm (h : ms'.Perm ms) (hids : (ms.map Market.productId).Nodup) (id : String) :
    lastPrice? id ms' = lastPrice? id ms := by
  have hids' : (ms'.map Market.productId).Nodup := (h.map Market.productId).nodup_iff.mpr hids
  refine Option.ext fun p => ?_
  rw [lastPrice?_eq_some_iff, lastPrice?_eq_some_iff, lastPrice_iff_exists_mem hids,
    lastPrice_iff_exists_mem hids']
  simp only [h.mem_iff]

/-- **The rates do not depend on the order of the markets.** -/
theorem ofMarkets_perm (h : ms'.Perm ms) (hids : (ms.map Market.productId).Nodup) :
    CrossRates.ofMarkets ms' = CrossRates.ofMarkets ms := by
  simp only [CrossRates.ofMarkets, lastPrice?_perm h hids]

@[simp] theorem Market.productId_valued (rates : CrossRates) (m : Market) :
    (m.valued rates).productId = m.productId := by
  unfold valued
  split_ifs <;> rfl

@[simp] theorem Market.price_valued (rates : CrossRates) (m : Market) :
    (m.valued rates).price = m.price := by
  unfold valued
  split_ifs <;> rfl

theorem map_productId_valued (rates : CrossRates) (ms : List Market) :
    (ms.map (Market.valued rates)).map Market.productId = ms.map Market.productId := by
  simp

theorem lastPrice?_map_valued (rates : CrossRates) (id : String) (ms : List Market) :
    lastPrice? id (ms.map (Market.valued rates)) = lastPrice? id ms := by
  unfold lastPrice?
  rw [← List.map_reverse, List.find?_map, Option.bind_map]
  simp only [Function.comp_def, Market.productId_valued, Market.price_valued]

/-- The rates do not depend on the volumes in dollars. -/
theorem ofMarkets_map_valued (rates : CrossRates) (ms : List Market) :
    CrossRates.ofMarkets (ms.map (Market.valued rates)) = CrossRates.ofMarkets ms := by
  simp only [CrossRates.ofMarkets, lastPrice?_map_valued]

/-! ## Volumes -/

/-- A market that is valued at the same rates again keeps its volume. -/
theorem Market.valued_valued (rates : CrossRates) (m : Market) :
    (m.valued rates).valued rates = m.valued rates := by
  by_cases hrate : (rates.usdPerUnit m.quote).isSome
  · rw [valued, valued, if_pos hrate, if_pos hrate]
    rfl
  · rw [valued, valued, if_neg hrate, if_neg hrate]

/-- A volume may stand before another in a ranking: the other is known only if it is, and then it is
no greater. -/
def Precedes (x y : Option ℚ) : Prop := ∀ b ∈ y, ∃ a ∈ x, b ≤ a

theorem Market.NotLess.precedes (h : m.NotLess m') : Precedes m.dollars m'.dollars := by
  intro b hb
  obtain ⟨y, hy, rfl⟩ := Option.map_eq_some_iff.mp hb
  obtain ⟨x, hx, hyx⟩ := h y hy
  exact ⟨x.toRat, Option.map_eq_some_iff.mpr ⟨x, hx, rfl⟩, hyx⟩

theorem Precedes.antisymm {x y : Option ℚ} (h : Precedes x y) (h' : Precedes y x) : x = y := by
  cases x with
  | none =>
    cases y with
    | none => rfl
    | some b =>
      obtain ⟨a, ha, -⟩ := h b rfl
      exact nomatch ha
  | some a =>
    obtain ⟨b, rfl, hab⟩ := h' a rfl
    obtain ⟨a', ha', hba⟩ := h b rfl
    obtain rfl := Option.some.inj ha'
    exact congrArg some (le_antisymm hab hba)

/-! ## Rankings -/

/-- the market without its volume in dollars -/
def Market.unvalued (m : Market) : Market := { m with usdVolume := none }

/-- Two rankings of the markets `ms` differ at most in the order of those with one volume. -/
structure SameRanking (ms out out' : List Market) : Prop where
  /-- every market of the list stands in the ranking, and no other -/
  complete : (out'.map Market.unvalued).Perm (ms.map Market.unvalued)
  /-- their markets are the same, with all that is known of them -/
  perm : out.Perm out'
  /-- a product has the same volume in both -/
  usdVolume_eq : ∀ m ∈ out, ∀ m' ∈ out', m.productId = m'.productId → m.usdVolume = m'.usdVolume
  /-- at each place both have the same volume -/
  dollars_eq : out.map Market.dollars = out'.map Market.dollars

theorem rankMarkets_perm_valued (ms : List Market) :
    (rankMarkets ms).Perm (ms.map (Market.valued (CrossRates.ofMarkets ms))) :=
  List.mergeSort_perm _ _

theorem Market.unvalued_valued (rates : CrossRates) (m : Market) :
    (m.valued rates).unvalued = m.unvalued := by
  unfold valued
  split_ifs <;> rfl

/-- A ranking holds the markets of the list, but for the volumes. -/
theorem map_unvalued_rankMarkets (ms : List Market) :
    ((rankMarkets ms).map Market.unvalued).Perm (ms.map Market.unvalued) := by
  refine ((rankMarkets_perm_valued ms).map Market.unvalued).trans (.of_eq ?_)
  rw [List.map_map]
  exact List.map_congr_left fun m _ => Market.unvalued_valued _ m

theorem pairwise_rankMarkets (ms : List Market) :
    (rankMarkets ms).Pairwise fun a b => a.before b = true :=
  List.pairwise_mergeSort Market.before_trans Market.before_total _

theorem pairwise_dollars_rankMarkets (ms : List Market) :
    ((rankMarkets ms).map Market.dollars).Pairwise Precedes := by
  rw [List.pairwise_map]
  refine (pairwise_rankMarkets ms).imp ?_
  intro a b hab
  exact (Market.before_iff.mp hab).precedes

/-- A product stands in a ranking once if it is listed once. -/
theorem nodup_rankMarkets (hids : (ms.map Market.productId).Nodup) :
    ((rankMarkets ms).map Market.productId).Nodup := by
  rw [((rankMarkets_perm_valued ms).map Market.productId).nodup_iff, map_productId_valued]
  exact hids

/-- The rates of a ranking are those of the list. -/
theorem ofMarkets_rankMarkets (hids : (ms.map Market.productId).Nodup) :
    CrossRates.ofMarkets (rankMarkets ms) = CrossRates.ofMarkets ms := by
  rw [ofMarkets_perm (rankMarkets_perm_valued ms) (by rwa [map_productId_valued]),
    ofMarkets_map_valued]

/-- Every market of a ranking has its volume already. -/
theorem map_valued_rankMarkets (ms : List Market) :
    (rankMarkets ms).map (Market.valued (CrossRates.ofMarkets ms)) = rankMarkets ms := by
  have hsame : ∀ m ∈ rankMarkets ms, m.valued (CrossRates.ofMarkets ms) = id m := by
    intro m hm
    obtain ⟨listed, -, rfl⟩ := List.mem_map.mp ((rankMarkets_perm_valued ms).mem_iff.mp hm)
    exact Market.valued_valued _ listed
  rw [List.map_congr_left hsame, List.map_id]

/-- A ranking is in order with the volumes that it has, so it is its own ranking. -/
theorem rankMarkets_rankMarkets (hids : (ms.map Market.productId).Nodup) :
    rankMarkets (rankMarkets ms) = rankMarkets ms := by
  rw [rankMarkets, ofMarkets_rankMarkets hids, map_valued_rankMarkets]
  exact List.mergeSort_of_pairwise (pairwise_rankMarkets ms)

/-- Rankings of the same markets differ at most in the order of those with one volume. -/
theorem sameRanking_of_perm (h : (rankMarkets ms').Perm (rankMarkets ms))
    (hids : (ms.map Market.productId).Nodup) :
    SameRanking ms (rankMarkets ms') (rankMarkets ms) where
  complete := map_unvalued_rankMarkets ms
  perm := h
  usdVolume_eq m hm m' hm' hid := by
    have hsame : m = m' :=
      List.inj_on_of_nodup_map (nodup_rankMarkets hids) (h.mem_iff.mp hm) hm' hid
    rw [hsame]
  dollars_eq := (h.map Market.dollars).eq_of_pairwise (fun _ _ _ _ => Precedes.antisymm)
    (pairwise_dollars_rankMarkets ms') (pairwise_dollars_rankMarkets ms)

/-- **The ranking of markets does not depend on the order in which they are listed**, whatever is
known of them, as long as no product is listed twice, and **it is final**: ranked again it stays as
it is. -/
theorem rankMarkets_reordered (hids : (ms.map Market.productId).Nodup) :
    (∀ ms', ms'.Perm ms → SameRanking ms (rankMarkets ms') (rankMarkets ms)) ∧
      rankMarkets (rankMarkets ms) = rankMarkets ms := by
  refine ⟨?_, rankMarkets_rankMarkets hids⟩
  intro ms' hperm
  have hmarkets : (rankMarkets ms').Perm (rankMarkets ms) := by
    refine (rankMarkets_perm_valued ms').trans (.trans ?_ (rankMarkets_perm_valued ms).symm)
    rw [ofMarkets_perm hperm hids]
    exact hperm.map _
  exact sameRanking_of_perm hmarkets hids

/-- markets of which two have one volume, one is quoted in euros, and two cannot be valued -/
def Market.samples : List Market :=
  [.of ⟨"BTC-EUR", "BTC", "EUR"⟩ ⟨some (.ofNat 40000), some (.ofNat 25)⟩,
    .of ⟨"ETH-USD", "ETH", "USD"⟩ ⟨some (.ofNat 3000), some (.ofNat 400)⟩,
    .of ⟨"XRP-JPY", "XRP", "JPY"⟩ ⟨some (.ofNat 80), some (.ofNat 700)⟩,
    .of ⟨"BTC-USD", "BTC", "USD"⟩ ⟨some (.ofNat 60000), some .one⟩,
    .of ⟨"ETH-BTC", "ETH", "BTC"⟩ ⟨some .one, some (.ofNat 20)⟩,
    .of ⟨"LTC-GBP", "LTC", "GBP"⟩ ⟨some (.ofNat 60), none⟩]

theorem rankMarkets_reordered_samples :
    (Market.samples.map Market.productId).Nodup ∧ Market.samples.reverse.Perm Market.samples ∧
      SameRanking Market.samples (rankMarkets Market.samples.reverse) (rankMarkets Market.samples) ∧
      rankMarkets (rankMarkets Market.samples) = rankMarkets Market.samples := by
  have hids : (Market.samples.map Market.productId).Nodup := by decide
  have hreordered := rankMarkets_reordered hids
  exact ⟨hids, List.reverse_perm _, hreordered.1 _ (List.reverse_perm _), hreordered.2⟩

end MarketFeed
