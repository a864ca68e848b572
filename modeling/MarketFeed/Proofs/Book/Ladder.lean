import MarketFeed.Book.Ladder
import MarketFeed.Proofs.Decimal.Value

/-!
# Ladders by value

A ladder is looked up by the value of a price, whatever its spelling. What stands at a value after
a change does not depend on the order of the rungs; that there is one rung for each value does.

## Main definitions

* `Ladder.rungAt`: what stands at a price value
* `Ladder.Related`: related things stand at the same prices

## Main results

* `Ladder.rungAt_insert`, `Ladder.rungAt_erase`: what stands at a value after a change
* `Ladder.Ascending.insert`, `Ladder.Ascending.erase`: changes keep the order
* `Ladder.Ascending.rungAt_eq_some_iff`: the rungs of an ascending ladder are what stands at their
  prices
* `Ladder.Related.insert`, `Ladder.Related.erase`: changes keep ladders related
-/

namespace MarketFeed.Ladder

variable {α : Type}

/-- What stands at a price value. -/
def rungAt (l : Ladder α) (q : ℚ) : Option α :=
  (l.rungs.find? fun r => r.1.toRat = q).map Prod.snd

theorem find?_eq_rungAt (l : Ladder α) (p : Decimal) : l.find? p = l.rungAt p.toRat := by
  simp only [find?, rungAt, Decimal.same_iff]

@[simp] theorem rungAt_empty (q : ℚ) : (empty : Ladder α).rungAt q = none := rfl

theorem rungAt_insert (l : Ladder α) (p : Decimal) (a : α) (q : ℚ) :
    (l.insert p a).rungAt q = if p.toRat = q then some a else l.rungAt q := by
  obtain ⟨rs⟩ := l
  simp only [rungAt, insert]
  induction rs with
  | nil => by_cases hq : p.toRat = q <;> simp [place, hq]
  | cons r rs ih =>
    by_cases hlt : r.1 < p
    · have hne : r.1.toRat ≠ p.toRat := (Decimal.lt_iff.mp hlt).ne
      rw [place, if_pos hlt]
      by_cases hr : r.1.toRat = q
      · rw [if_neg fun h => hne (hr.trans h.symm)]
        simp [hr]
      · simpa [List.find?_cons, hr] using ih
    · by_cases hsame : r.1.Same p
      · rw [place, if_neg hlt, if_pos hsame]
        by_cases hq : p.toRat = q <;> simp [Decimal.same_iff.mp hsame, hq]
      · rw [place, if_neg hlt, if_neg hsame]
        by_cases hq : p.toRat = q <;> simp [List.find?_cons, hq]

theorem rungAt_erase (l : Ladder α) (p : Decimal) (q : ℚ) :
    (l.erase p).rungAt q = if p.toRat = q then none else l.rungAt q := by
  simp only [rungAt, erase, List.find?_filter, Decimal.same_iff]
  split_ifs with hq
  · simp [hq]
  · congr 2
    funext r
    by_cases hr : r.1.toRat = q
    · simp [hr, Ne.symm hq]
    · simp [hr]

theorem mem_rungs_of_rungAt {l : Ladder α} {q : ℚ} {a : α} (h : l.rungAt q = some a) :
    ∃ p, (p, a) ∈ l.rungs ∧ p.toRat = q := by
  obtain ⟨⟨p, a'⟩, hr, rfl⟩ := Option.map_eq_some_iff.mp h
  exact ⟨p, List.mem_of_find?_eq_some hr, by simpa using List.find?_some hr⟩

theorem rungAt_eq_none_iff {l : Ladder α} {q : ℚ} :
    l.rungAt q = none ↔ ∀ r ∈ l.rungs, r.1.toRat ≠ q := by
  simp [rungAt]

/-! ## Order -/

theorem ascending_iff {l : Ladder α} :
    l.Ascending ↔ l.rungs.Pairwise fun r r' => r.1.toRat < r'.1.toRat := by
  simp only [Ascending, Decimal.lt_iff]

theorem mem_place {p : Decimal} {a : α} {rs : List (Decimal × α)} {r : Decimal × α}
    (h : r ∈ place p a rs) : r.1.toRat = p.toRat ∨ r ∈ rs := by
  induction rs with
  | nil =>
    rw [place, List.mem_singleton] at h
    exact Or.inl (h ▸ rfl)
  | cons r' rs ih =>
    unfold place at h
    split_ifs at h with hlt hsame
    · rcases List.mem_cons.mp h with rfl | h
      · exact Or.inr List.mem_cons_self
      · exact (ih h).imp_right (List.mem_cons_of_mem _)
    · rcases List.mem_cons.mp h with rfl | h
      · exact Or.inl (Decimal.same_iff.mp hsame)
      · exact Or.inr (List.mem_cons_of_mem _ h)
    · rcases List.mem_cons.mp h with rfl | h
      · exact Or.inl rfl
      · exact Or.inr h

namespace Ascending

theorem empty : (Ladder.empty : Ladder α).Ascending := List.Pairwise.nil

theorem insert {l : Ladder α} (h : l.Ascending) (p : Decimal) (a : α) :
    (l.insert p a).Ascending := by
  obtain ⟨rs⟩ := l
  rw [ascending_iff] at h ⊢
  simp only [Ladder.insert] at h ⊢
  induction rs with
  | nil => simp [place]
  | cons r rs ih =>
    obtain ⟨hr, hrs⟩ := List.pairwise_cons.mp h
    unfold place
    split_ifs with hlt hsame
    · refine List.pairwise_cons.mpr ⟨fun r' hr' => ?_, ih hrs⟩
      rcases mem_place hr' with he | hmem
      · rw [he]
        exact Decimal.lt_iff.mp hlt
      · exact hr r' hmem
    · exact List.pairwise_cons.mpr ⟨hr, hrs⟩
    · have hpr : p.toRat < r.1.toRat :=
        lt_of_le_of_ne (not_lt.mp (mt Decimal.lt_iff.mpr hlt))
          fun he => hsame (Decimal.same_iff.mpr he.symm)
      refine List.pairwise_cons.mpr ⟨fun r' hr' => ?_, h⟩
      rcases List.mem_cons.mp hr' with rfl | hr'
      · exact hpr
      · exact hpr.trans (hr r' hr')

theorem erase {l : Ladder α} (h : l.Ascending) (p : Decimal) : (l.erase p).Ascending :=
  List.Pairwise.filter _ h

/-- The rungs of an ascending ladder are what stands at their prices. -/
theorem rungAt_eq_some_iff {l : Ladder α} (h : l.Ascending) {q : ℚ} {a : α} :
    l.rungAt q = some a ↔ ∃ p, (p, a) ∈ l.rungs ∧ p.toRat = q := by
  refine ⟨mem_rungs_of_rungAt, ?_⟩
  rintro ⟨p, hmem, rfl⟩
  obtain ⟨rs⟩ := l
  rw [ascending_iff] at h
  simp only [rungAt] at h hmem ⊢
  induction rs with
  | nil => cases hmem
  | cons r rs ih =>
    obtain ⟨hr, hrs⟩ := List.pairwise_cons.mp h
    rcases List.mem_cons.mp hmem with rfl | hmem
    · simp
    · have hne : r.1.toRat ≠ p.toRat := (hr _ hmem).ne
      simpa [List.find?_cons, hne] using ih hrs hmem

end Ascending

/-! ## Related ladders -/

/-- Ladders with the same prices, in the same spelling, and related things at each of them. -/
def Related (R : α → α → Prop) (l l' : Ladder α) : Prop :=
  List.Forall₂ (fun r r' => r.1 = r'.1 ∧ R r.2 r'.2) l.rungs l'.rungs

namespace Related

variable {R : α → α → Prop} {l l' : Ladder α} {p : Decimal} {a a' : α}

theorem empty : Related R empty empty := .nil

theorem trans {l'' : Ladder α} (hR : ∀ a b c, R a b → R b c → R a c) (h : l.Related R l')
    (h' : l'.Related R l'') : l.Related R l'' := by
  obtain ⟨rs⟩ := l
  obtain ⟨rs'⟩ := l'
  obtain ⟨rs''⟩ := l''
  replace h : List.Forall₂ _ rs rs' := h
  replace h' : List.Forall₂ _ rs' rs'' := h'
  change List.Forall₂ _ rs rs''
  induction h generalizing rs'' with
  | nil =>
    cases h'
    exact .nil
  | cons hr _ ih =>
    cases h' with
    | cons hr' hrs' => exact .cons ⟨hr.1.trans hr'.1, hR _ _ _ hr.2 hr'.2⟩ (ih _ hrs')

theorem prices (h : l.Related R l') : l.rungs.map Prod.fst = l'.rungs.map Prod.fst := by
  obtain ⟨rs⟩ := l
  obtain ⟨rs'⟩ := l'
  replace h : List.Forall₂ _ rs rs' := h
  induction h with
  | nil => rfl
  | cons hr _ ih => exact congrArg₂ List.cons hr.1 ih

theorem ascending (h : l.Related R l') (hasc : l'.Ascending) : l.Ascending := by
  have hpairwise := List.pairwise_map.mpr hasc
  rw [← h.prices] at hpairwise
  exact List.pairwise_map.mp hpairwise

theorem exists_of_mem (h : l.Related R l') {r : Decimal × α} (hr : r ∈ l.rungs) :
    ∃ r' ∈ l'.rungs, r.1 = r'.1 ∧ R r.2 r'.2 := by
  obtain ⟨rs⟩ := l
  obtain ⟨rs'⟩ := l'
  replace h : List.Forall₂ _ rs rs' := h
  replace hr : r ∈ rs := hr
  induction h with
  | nil => exact nomatch hr
  | cons hhead _ ih =>
    rcases List.mem_cons.mp hr with rfl | hr
    · exact ⟨_, List.mem_cons_self, hhead⟩
    · obtain ⟨r', hr', hrel⟩ := ih hr
      exact ⟨r', List.mem_cons_of_mem _ hr', hrel⟩

theorem rungAt (h : l.Related R l') (q : ℚ) : Option.Rel R (l.rungAt q) (l'.rungAt q) := by
  obtain ⟨rs⟩ := l
  obtain ⟨rs'⟩ := l'
  replace h : List.Forall₂ _ rs rs' := h
  simp only [Ladder.rungAt]
  induction h with
  | nil => exact .none
  | @cons r r' rs rs' hr _ ih =>
    by_cases hq : r'.1.toRat = q
    · simpa [List.find?_cons, hr.1, hq] using hr.2
    · simpa [List.find?_cons, hr.1, hq] using ih

theorem find? (h : l.Related R l') (p : Decimal) : Option.Rel R (l.find? p) (l'.find? p) := by
  rw [find?_eq_rungAt, find?_eq_rungAt]
  exact h.rungAt p.toRat

theorem insert (h : l.Related R l') (p : Decimal) (ha : R a a') :
    (l.insert p a).Related R (l'.insert p a') := by
  obtain ⟨rs⟩ := l
  obtain ⟨rs'⟩ := l'
  replace h : List.Forall₂ _ rs rs' := h
  change List.Forall₂ _ (place p a rs) (place p a' rs')
  induction h with
  | nil => exact .cons ⟨rfl, ha⟩ .nil
  | cons hr hrs ih =>
    rw [place, place, hr.1]
    split_ifs
    · exact .cons hr ih
    · exact .cons ⟨rfl, ha⟩ hrs
    · exact .cons ⟨rfl, ha⟩ (.cons hr hrs)

theorem erase (h : l.Related R l') (p : Decimal) : (l.erase p).Related R (l'.erase p) := by
  obtain ⟨rs⟩ := l
  obtain ⟨rs'⟩ := l'
  replace h : List.Forall₂ _ rs rs' := h
  change List.Forall₂ _ (rs.filter _) (rs'.filter _)
  induction h with
  | nil => exact .nil
  | @cons r r' rs rs' hr _ ih =>
    rw [List.filter_cons, List.filter_cons, hr.1]
    split_ifs
    · exact .cons hr ih
    · exact ih

end Related

end MarketFeed.Ladder
