import Mathlib.Data.List.Forall2
import MarketFeed.Market.Ranking
import MarketFeed.Proofs.Decimal.Rounding

/-!
# The ranking of any list of markets

The rates of a list are those of its reference markets, by way of bitcoin the quotient of two of
them, and the volume of a market in dollars is the product of what its ticker says with the rate of
its quote. The ranking fills in these volumes and sorts by them. Since the comparison of volumes is
a total preorder, a merge sort gives a permutation that descends and keeps the order of markets with
one volume.

## Main definitions

* `LastPrice`: the price of the last market with an id that has one
* `IsQuotient`: a price is the quotient of two others, as far as decimals go
* `IsRate`: what a unit of a currency is worth in dollars, by the markets of a list
* `Worth`: the volume of a market in dollars
* `Fills`: a market has its volume filled in and is otherwise unchanged
* `Ranks`: a list is the ranking of another

## Main results

* `usdPerUnit_eq_some_iff`: the cross rates of a list are its rates
* `exists_isRate_iff`: by way of bitcoin there is a rate if the quotient of the prices is in range
* `Market.fills_valued`: valuing a market fills its volume in
* `rankMarkets_ranks`: every list of products with their tickers is ranked
-/

namespace MarketFeed

open Decimal

/-! ## Rates -/

/-- The last market with an id that has a price has the price `p`. -/
def LastPrice (ms : List Market) (id : String) (p : Decimal) : Prop :=
  ∃ before m after, ms = before ++ m :: after ∧ m.productId = id ∧ m.price = some p ∧
    ∀ m' ∈ after, m'.productId = id → m'.price = none

theorem lastPrice?_eq_some_iff {ms : List Market} {id : String} {p : Decimal} :
    lastPrice? id ms = some p ↔ LastPrice ms id p := by
  unfold lastPrice?
  rw [Option.bind_eq_some_iff]
  constructor
  · rintro ⟨m, hfind, hprice⟩
    obtain ⟨hm, after, before, hms, hafter⟩ := List.find?_eq_some_iff_append.mp hfind
    simp only [Bool.and_eq_true, beq_iff_eq] at hm
    refine ⟨before.reverse, m, after.reverse, ?_, hm.1, hprice, ?_⟩
    · simpa using congrArg List.reverse hms
    · intro m' hm' hid
      simpa [hid] using hafter m' (List.mem_reverse.mp hm')
  · rintro ⟨before, m, after, rfl, hid, hprice, hafter⟩
    refine ⟨m, List.find?_eq_some_iff_append.mpr ⟨by simp [hid, hprice], after.reverse,
      before.reverse, by simp, ?_⟩, hprice⟩
    intro m' hm'
    by_cases h : m'.productId = id
    · simp [hafter m' (List.mem_reverse.mp hm') h]
    · simp [h]

/-- `r` is what division makes of two prices: their quotient, right to 27 digits or 28 places. -/
structure IsQuotient (p q r : Decimal) : Prop where
  ne_zero : q.toRat ≠ 0
  div : p.div q = some r
  close : |r.toRat - p.toRat / q.toRat| ≤ |p.toRat / q.toRat| / 10 ^ 27 + 1 / 10 ^ 28

theorem isQuotient_iff {p q r : Decimal} : IsQuotient p q r ↔ p.div q = some r := by
  refine ⟨IsQuotient.div, fun h => ?_⟩
  exact ⟨(exists_div_iff.mp ⟨r, h⟩).1, h, (div_rounded h).close⟩

/-- What a unit of a currency is worth in dollars, by the prices of the reference markets. -/
inductive IsRate (ms : List Market) : String → Decimal → Prop
  /-- some currencies are as good as dollars -/
  | dollar {quote} (h : quote ∈ ["USD", "USDC", "USDS", "DAI", "PAX", "TUSD", "USDT"]) :
      IsRate ms quote one
  /-- a currency with a market of its own against the dollar -/
  | direct {quote id p} (h : (quote, id) ∈ [("BTC", "BTC-USD"), ("ETH", "ETH-USD")])
      (hp : LastPrice ms id p) : IsRate ms quote p
  /-- a currency that is reached by way of bitcoin -/
  | across {quote id p q r} (h : (quote, id) ∈ [("EUR", "BTC-EUR"), ("GBP", "BTC-GBP")])
      (hp : LastPrice ms "BTC-USD" p) (hq : LastPrice ms id q) (hr : IsQuotient p q r) :
      IsRate ms quote r

theorem ratio_eq_some_iff {a b : Option Decimal} {r : Decimal} :
    CrossRates.ratio a b = some r ↔ ∃ p q, a = some p ∧ b = some q ∧ p.div q = some r := by
  simp only [CrossRates.ratio, bind, Option.bind_eq_some_iff]
  constructor
  · rintro ⟨p, hp, q, hq, hr⟩
    exact ⟨p, q, hp, hq, hr⟩
  · rintro ⟨p, q, hp, hq, hr⟩
    exact ⟨p, hp, q, hq, hr⟩

/-- The cross rates of a list are what its reference markets say. -/
theorem usdPerUnit_eq_some_iff {ms : List Market} {quote : String} {r : Decimal} :
    (CrossRates.ofMarkets ms).usdPerUnit quote = some r ↔ IsRate ms quote r := by
  unfold CrossRates.usdPerUnit CrossRates.ofMarkets
  constructor
  · intro h
    split_ifs at h with hdollar hbtc heth heur hgbp
    · cases h
      exact .dollar (List.contains_iff_mem.mp hdollar)
    · exact .direct (show (quote, "BTC-USD") ∈ _ by simp [hbtc]) (lastPrice?_eq_some_iff.mp h)
    · exact .direct (show (quote, "ETH-USD") ∈ _ by simp [heth]) (lastPrice?_eq_some_iff.mp h)
    · obtain ⟨p, q, hp, hq, hr⟩ := ratio_eq_some_iff.mp h
      exact .across (show (quote, "BTC-EUR") ∈ _ by simp [heur]) (lastPrice?_eq_some_iff.mp hp)
        (lastPrice?_eq_some_iff.mp hq) (isQuotient_iff.mpr hr)
    · obtain ⟨p, q, hp, hq, hr⟩ := ratio_eq_some_iff.mp h
      exact .across (show (quote, "BTC-GBP") ∈ _ by simp [hgbp]) (lastPrice?_eq_some_iff.mp hp)
        (lastPrice?_eq_some_iff.mp hq) (isQuotient_iff.mpr hr)
  · intro h
    cases h with
    | dollar h => exact if_pos (List.contains_iff_mem.mpr h)
    | direct h hp =>
      rw [← lastPrice?_eq_some_iff] at hp
      simp only [List.mem_cons, Prod.mk.injEq, List.not_mem_nil, or_false] at h
      rcases h with ⟨rfl, rfl⟩ | ⟨rfl, rfl⟩
      · simpa [dollarQuotes] using hp
      · simpa [dollarQuotes] using hp
    | across h hp hq hr =>
      rw [← lastPrice?_eq_some_iff] at hp hq
      simp only [List.mem_cons, Prod.mk.injEq, List.not_mem_nil, or_false] at h
      rcases h with ⟨rfl, rfl⟩ | ⟨rfl, rfl⟩
      · simpa [dollarQuotes] using ratio_eq_some_iff.mpr ⟨_, _, hp, hq, hr.div⟩
      · simpa [dollarQuotes] using ratio_eq_some_iff.mpr ⟨_, _, hp, hq, hr.div⟩

theorem LastPrice.unique {ms : List Market} {id : String} {p p' : Decimal} (h : LastPrice ms id p)
    (h' : LastPrice ms id p') : p = p' := by
  rw [← lastPrice?_eq_some_iff] at h h'
  exact Option.some.inj (h.symm.trans h')

/-- A currency has one rate. -/
theorem IsRate.unique {ms : List Market} {quote : String} {r r' : Decimal} (h : IsRate ms quote r)
    (h' : IsRate ms quote r') : r = r' := by
  rw [← usdPerUnit_eq_some_iff] at h h'
  exact Option.some.inj (h.symm.trans h')

/-- **By way of bitcoin there is a rate if and only if the quotient of both prices is in range**,
and the rate is that quotient. -/
theorem exists_isRate_iff {ms : List Market} {quote id : String} {p q : Decimal}
    (h : (quote, id) ∈ [("EUR", "BTC-EUR"), ("GBP", "BTC-GBP")]) (hp : LastPrice ms "BTC-USD" p)
    (hq : LastPrice ms id q) :
    ((∃ r, IsRate ms quote r) ↔ q.toRat ≠ 0 ∧ InRange (p.toRat / q.toRat)) ∧
      ∀ r, IsRate ms quote r → IsQuotient p q r := by
  have hquotient : ∀ r, IsRate ms quote r → IsQuotient p q r := by
    simp only [List.mem_cons, Prod.mk.injEq, List.not_mem_nil, or_false] at h
    intro r hr
    cases hr with
    | dollar hdollar => rcases h with ⟨rfl, rfl⟩ | ⟨rfl, rfl⟩ <;> simp at hdollar
    | direct hdirect _ => rcases h with ⟨rfl, rfl⟩ | ⟨rfl, rfl⟩ <;> simp at hdirect
    | across hacross hp' hq' hr' =>
      obtain rfl := hp.unique hp'
      rcases h with ⟨rfl, rfl⟩ | ⟨rfl, rfl⟩
      · simp only [List.mem_cons, Prod.mk.injEq, List.not_mem_nil, or_false] at hacross
        obtain ⟨-, rfl⟩ | ⟨hquote, -⟩ := hacross
        · exact hq.unique hq' ▸ hr'
        · exact absurd hquote (by decide)
      · simp only [List.mem_cons, Prod.mk.injEq, List.not_mem_nil, or_false] at hacross
        obtain ⟨hquote, -⟩ | ⟨-, rfl⟩ := hacross
        · exact absurd hquote (by decide)
        · exact hq.unique hq' ▸ hr'
  refine ⟨⟨?_, ?_⟩, hquotient⟩
  · rintro ⟨r, hr⟩
    exact exists_div_iff.mp ⟨r, (hquotient r hr).div⟩
  · intro hrange
    obtain ⟨r, hr⟩ := exists_div_iff.mpr hrange
    exact ⟨r, .across h hp hq (isQuotient_iff.mpr hr)⟩

/-! ## Volumes -/

/-- The volume of a market in dollars: what was traded times the price, times what a unit of the
quote is worth. -/
def Worth (ms : List Market) (m : Market) (d : Decimal) : Prop :=
  ∃ v p r q, m.volume = some v ∧ m.price = some p ∧ IsRate ms m.quote r ∧ v.mul p = some q ∧
    q.mul r = some d

theorem usdVolumeAt_eq_some_iff {ms : List Market} {m : Market} {d : Decimal} :
    m.usdVolumeAt (CrossRates.ofMarkets ms) = some d ↔ Worth ms m d := by
  simp only [Market.usdVolumeAt, bind, Option.bind_eq_some_iff, usdPerUnit_eq_some_iff]
  constructor
  · rintro ⟨r, hr, v, hv, p, hp, q, hq, hd⟩
    exact ⟨v, p, r, q, hv, hp, hr, hq, hd⟩
  · rintro ⟨v, p, r, q, hv, hp, hr, hq, hd⟩
    exact ⟨r, hr, v, hv, p, hp, q, hq, hd⟩

/-- `m'` is `m` with its volume in dollars filled in. -/
structure Fills (ms : List Market) (m m' : Market) : Prop where
  /-- nothing else is changed -/
  frame : { m' with usdVolume := m.usdVolume } = m
  /-- the volume is there exactly if ticker and rates have all that it takes -/
  volume : ∀ d, m'.usdVolume = some d ↔ Worth ms m d
  /-- a product that needs no rounding is not rounded -/
  exact : ∀ v p r, m.volume = some v → m.price = some p → IsRate ms m.quote r →
    (∃ q : Decimal, q.toRat = v.toRat * p.toRat) →
    (∃ d : Decimal, d.toRat = v.toRat * p.toRat * r.toRat) →
      ∃ d, m'.usdVolume = some d ∧ d.toRat = v.toRat * p.toRat * r.toRat
  /-- any other is right to 27 digits or 28 places in each of its two steps -/
  close : ∀ d, m'.usdVolume = some d → ∃ v p r, ∃ x : ℚ, m.volume = some v ∧ m.price = some p ∧
    IsRate ms m.quote r ∧
    |x - v.toRat * p.toRat| ≤ |v.toRat * p.toRat| / 10 ^ 27 + 1 / 10 ^ 28 ∧
    |d.toRat - x * r.toRat| ≤ |x * r.toRat| / 10 ^ 27 + 1 / 10 ^ 28
  /-- with ticker and rate there, the volume is unknown just if a product is out of range -/
  overflow : ∀ v p r, m.volume = some v → m.price = some p → IsRate ms m.quote r →
    (m'.usdVolume = none ↔ ∀ q, v.mul p = some q → ¬ InRange (q.toRat * r.toRat)) ∧
      ((∃ q, v.mul p = some q) ↔ InRange (v.toRat * p.toRat))

theorem fills_of_volume {ms : List Market} {m m' : Market}
    (frame : { m' with usdVolume := m.usdVolume } = m)
    (volume : ∀ d, m'.usdVolume = some d ↔ Worth ms m d) : Fills ms m m' where
  frame := frame
  volume := volume
  exact v p r hv hp hr hq hd := by
    obtain ⟨q, hmul, hval⟩ := mul_exact hq
    rw [← hval] at hd ⊢
    obtain ⟨d, hmul', hval'⟩ := mul_exact hd
    exact ⟨d, (volume d).mpr ⟨v, p, r, q, hv, hp, hr, hmul, hmul'⟩, hval'⟩
  close d hd := by
    obtain ⟨v, p, r, q, hv, hp, hr, hmul, hmul'⟩ := (volume d).mp hd
    exact ⟨v, p, r, q.toRat, hv, hp, hr, (mul_rounded hmul).close, (mul_rounded hmul').close⟩
  overflow v p r hv hp hr := by
    refine ⟨⟨fun hnone q hq hrange => ?_, fun hover => ?_⟩, exists_mul_iff⟩
    · obtain ⟨d, hd⟩ := exists_mul hrange
      have hworth := (volume d).mpr ⟨v, p, r, q, hv, hp, hr, hq, hd⟩
      rw [hnone] at hworth
      exact nomatch hworth
    · rw [Option.eq_none_iff_forall_ne_some]
      intro d hd
      obtain ⟨v', p', r', q, hv', hp', hr', hmul, hmul'⟩ := (volume d).mp hd
      obtain rfl := Option.some.inj (hv.symm.trans hv')
      obtain rfl := Option.some.inj (hp.symm.trans hp')
      obtain rfl := hr.unique hr'
      exact hover q hmul (exists_mul_iff.mp ⟨d, hmul'⟩)

/-- Valuing a market fills in its volume. -/
theorem Market.fills_valued (ms : List Market) {m : Market} (hm : m.usdVolume = none) :
    Fills ms m (m.valued (CrossRates.ofMarkets ms)) := by
  unfold Market.valued
  split_ifs with hrate
  · exact fills_of_volume rfl fun d => usdVolumeAt_eq_some_iff
  · refine fills_of_volume rfl fun d => ?_
    rw [hm]
    constructor
    · exact nofun
    · rintro ⟨v, p, r, q, hv, hp, hr, hq, hd⟩
      rw [usdPerUnit_eq_some_iff.mpr hr] at hrate
      exact absurd rfl hrate

/-! ## Sorting -/

/-- A market has no less volume than another: the volume of the other is known only if its own is,
and then it is no greater. -/
def Market.NotLess (a b : Market) : Prop :=
  ∀ y, b.usdVolume = some y → ∃ x, a.usdVolume = some x ∧ y.toRat ≤ x.toRat

theorem Market.before_iff {a b : Market} : a.before b = true ↔ a.NotLess b := by
  unfold Market.before Market.NotLess
  cases ha : a.usdVolume <;> cases hb : b.usdVolume <;> simp [le_iff]

/-- The volume of a market as a number. -/
def Market.dollars (m : Market) : Option ℚ := m.usdVolume.map toRat

theorem Market.before_trans (a b c : Market) (hab : a.before b = true) (hbc : b.before c = true) :
    a.before c = true := by
  rw [Market.before_iff] at *
  intro z hz
  obtain ⟨y, hy, hzy⟩ := hbc z hz
  obtain ⟨x, hx, hyx⟩ := hab y hy
  exact ⟨x, hx, hzy.trans hyx⟩

theorem Market.before_total (a b : Market) : (a.before b || b.before a) = true := by
  rw [Bool.or_eq_true, Market.before_iff, Market.before_iff]
  unfold Market.NotLess
  cases ha : a.usdVolume with
  | none => exact .inr nofun
  | some x =>
    cases hb : b.usdVolume with
    | none => exact .inl nofun
    | some y =>
      rcases le_total y.toRat x.toRat with h | h
      · exact .inl fun z hz => ⟨x, rfl, Option.some.inj hz ▸ h⟩
      · exact .inr fun z hz => ⟨y, rfl, Option.some.inj hz ▸ h⟩

theorem Market.before_of_dollars_eq {a b : Market} (h : a.dollars = b.dollars) :
    a.before b = true := by
  rw [Market.before_iff]
  intro y hy
  rw [Market.dollars, Market.dollars, hy, Option.map_some, Option.map_eq_some_iff] at h
  obtain ⟨x, hx, hxy⟩ := h
  exact ⟨x, hx, hxy.ge⟩

/-- **A merge sort is stable**: elements that may stand in either order keep the one they have. -/
theorem filter_mergeSort {α : Type} {le : α → α → Bool} {p : α → Bool} {l : List α}
    (trans : ∀ a b c, le a b = true → le b c = true → le a c = true)
    (total : ∀ a b, (le a b || le b a) = true)
    (either : ∀ a b, p a = true → p b = true → le a b = true) :
    (l.mergeSort le).filter p = l.filter p := by
  have hsorted : (l.filter p).Pairwise fun a b => le a b = true := by
    refine List.pairwise_of_forall_mem_list ?_
    intro a ha b hb
    exact either a b (List.of_mem_filter ha) (List.of_mem_filter hb)
  have hsub : (l.filter p).Sublist (l.mergeSort le) :=
    List.sublist_mergeSort trans total hsorted List.filter_sublist
  have hsub' : (l.filter p).Sublist ((l.mergeSort le).filter p) := by
    simpa using hsub.filter p
  exact (hsub'.eq_of_length ((List.mergeSort_perm l le).filter p).length_eq.symm).symm

/-! ## Rankings -/

/-- A list is the ranking of the markets `ms`. -/
structure Ranks (ms out : List Market) : Prop where
  /-- by way of bitcoin a currency has a rate unless the quotient of the prices overflows -/
  rate : ∀ quote id p q, (quote, id) ∈ [("EUR", "BTC-EUR"), ("GBP", "BTC-GBP")] →
    LastPrice ms "BTC-USD" p → LastPrice ms id q →
      ((∃ r, IsRate ms quote r) ↔ q.toRat ≠ 0 ∧ InRange (p.toRat / q.toRat)) ∧
        ∀ r, IsRate ms quote r → IsQuotient p q r
  /-- its markets are those of `ms`, with their volumes filled in; those with one volume, or with
  none, stand in the order of `ms` -/
  exists_filled : ∃ filled, List.Forall₂ (Fills ms) ms filled ∧ out.Perm filled ∧
    ∀ x : Option ℚ, out.filter (fun m => m.dollars = x) = filled.filter (fun m => m.dollars = x)
  /-- the volumes descend, and unknown ones come last -/
  descends : out.Pairwise Market.NotLess

/-- **Every list of products with their tickers is ranked**: the ranking holds the same markets with
their volumes in dollars by the rates of the list, in descending order, and it is stable. -/
theorem rankMarkets_ranks (listed : List (Product × Ticker)) :
    Ranks (listed.map fun l => Market.of l.1 l.2)
      (rankMarkets (listed.map fun l => Market.of l.1 l.2)) := by
  have hunknown : ∀ m ∈ listed.map fun l => Market.of l.1 l.2, m.usdVolume = none := by
    intro m hm
    obtain ⟨l, -, rfl⟩ := List.mem_map.mp hm
    rfl
  generalize (listed.map fun l => Market.of l.1 l.2) = ms at *
  refine ⟨fun _ _ _ _ h hp hq => exists_isRate_iff h hp hq, ?_, ?_⟩
  · refine ⟨ms.map (Market.valued (CrossRates.ofMarkets ms)), ?_, List.mergeSort_perm _ _, ?_⟩
    · rw [List.forall₂_map_right_iff, List.forall₂_same]
      intro m hm
      exact Market.fills_valued ms (hunknown m hm)
    · intro x
      refine filter_mergeSort Market.before_trans Market.before_total ?_
      intro a b ha hb
      refine Market.before_of_dollars_eq ?_
      rw [of_decide_eq_true ha, of_decide_eq_true hb]
  · refine (List.pairwise_mergeSort Market.before_trans Market.before_total _).imp ?_
    intro a b hab
    exact Market.before_iff.mp hab

/-- products with their tickers: some are quoted in euros, and one in pounds at a price with many
places -/
def Market.listedSamples : List (Product × Ticker) :=
  [(⟨"ETH-EUR", "ETH", "EUR"⟩, ⟨some (.ofNat 2000), some (.ofNat 10)⟩),
    (⟨"BTC-GBP", "BTC", "GBP"⟩, ⟨some ⟨450000000000001, 10, by decide, by decide⟩, some .one⟩),
    (⟨"BTC-EUR", "BTC", "EUR"⟩, ⟨some (.ofNat 64000), some (.ofNat 15)⟩),
    (⟨"BTC-USD", "BTC", "USD"⟩, ⟨some (.ofNat 80000), some .one⟩)]

/-- The euro is at 1.25 dollars, the pound has a rate, and so every market of the ranking has a
volume. -/
theorem rankMarkets_ranks_samples :
    ∃ ms : List Market, ms = Market.listedSamples.map (fun l => Market.of l.1 l.2) ∧
      Ranks ms (rankMarkets ms) ∧ IsRate ms "EUR" ⟨125, 2, by decide, by decide⟩ ∧
      (∃ r, IsRate ms "GBP" r) ∧ ∀ m ∈ rankMarkets ms, m.usdVolume.isSome := by
  refine ⟨_, rfl, rankMarkets_ranks Market.listedSamples, ?_, ?_, ?_⟩
  · exact usdPerUnit_eq_some_iff.mp (by decide +kernel)
  · have hrate : ((CrossRates.ofMarkets (Market.listedSamples.map fun l =>
        Market.of l.1 l.2)).usdPerUnit "GBP").isSome := by decide +kernel
    obtain ⟨r, hr⟩ := Option.isSome_iff_exists.mp hrate
    exact ⟨r, usdPerUnit_eq_some_iff.mp hr⟩
  · intro m hm
    have hall : ((Market.listedSamples.map fun l => Market.of l.1 l.2).map (Market.valued
        (.ofMarkets (Market.listedSamples.map fun l => Market.of l.1 l.2)))).all
          (fun m => m.usdVolume.isSome) := by decide +kernel
    exact List.all_eq_true.mp hall m ((List.mergeSort_perm _ _).mem_iff.mp hm)

end MarketFeed
