import Mathlib.Data.List.Forall2
import MarketFeed.Proofs.Book.Orders

/-!
# Orders in whatever order

The map of the orders at a price lists them as it happens to. Nothing but a sum can tell: the sizes
of all orders and their prices are the same however they are listed, and orders that are listed in
two ways stay the same but for the listing when one of them is set or taken out.

## Main definitions

* `Orders.Alike`: the same orders at the same prices, listed in any order
* `Arrangement.reversed`: orders in the reverse of the order in which they came

## Main results

* `Table.rel_insertAll`: keys that are set to related values one after another
* `Table.Alike.insert`, `Table.Alike.erase`: changes keep tables alike
* `Orders.alike_rearrange`: orders that are rearranged are the same orders
* `Orders.Alike.levelAt`, `Orders.Alike.sizeAt_eq`: what alike orders have in common
* `Orders.Alike.set`, `Orders.Alike.remove`: changes keep them alike
* `OrderIndex.alike_sideOfSnapshot`, `OrderIndex.alike_listAnew`: updates list the same orders
-/

namespace MarketFeed

/-! ## Tables -/

namespace Table

variable {α : Type} {t t' t'' : Table α} {k : String} {a : α} {ps : List (String × α)}
  {p : String × α}

theorem put_of_find?_eq_none (h : ps.find? (·.1 == k) = none) : put k a ps = ps ++ [(k, a)] := by
  induction ps with
  | nil => rfl
  | cons p ps ih =>
    obtain ⟨hp, hps⟩ := List.forall_mem_cons.mp (List.find?_eq_none.mp h)
    rw [put, if_neg (by simpa using hp), ih (List.find?_eq_none.mpr hps), List.cons_append]

/-- A pair that is set takes the place of the first one with its key. -/
theorem cons_put_perm (h : ps.find? (·.1 == k) = some p) :
    (p :: put k a ps).Perm ((k, a) :: ps) := by
  induction ps with
  | nil => exact nomatch h
  | cons p' ps ih =>
    by_cases hk : p'.1 = k
    · obtain rfl : p' = p := by simpa [hk] using h
      rw [put, if_pos hk]
      exact .swap ..
    · have hrest : ps.find? (·.1 == k) = some p := by simpa [List.find?_cons, hk] using h
      rw [put, if_neg hk]
      exact (List.Perm.swap ..).trans (((ih hrest).cons p').trans (.swap ..))

/-- What the keys are set to one after another is related, if what they were set to before is. -/
theorem rel_insertAll {R : α → α → Prop} (h : ∀ k, Option.Rel R (t.find? k) (t'.find? k))
    {ps ps' : List (String × α)} (hps : List.Forall₂ (fun p p' => p.1 = p'.1 ∧ R p.2 p'.2) ps ps') :
    ∀ k, Option.Rel R ((t.insertAll ps).find? k) ((t'.insertAll ps').find? k) := by
  induction hps generalizing t t' with
  | nil => exact h
  | cons hp _ ih =>
    refine ih fun k => ?_
    rw [find?_insert, find?_insert, hp.1]
    split_ifs
    · exact .some hp.2
    · exact h k

namespace Alike

theorem symm (h : t.Alike t') : t'.Alike t := ⟨h.perm.symm, fun k => (h.find?_eq k).symm⟩

theorem trans (h : t.Alike t') (h' : t'.Alike t'') : t.Alike t'' :=
  ⟨h.perm.trans h'.perm, fun k => (h.find?_eq k).trans (h'.find?_eq k)⟩

theorem distinct (h : t.Alike t') (ht : t'.Distinct) : t.Distinct :=
  (h.perm.map Prod.fst).nodup_iff.mpr ht

theorem values_perm (h : t.Alike t') : t.values.Perm t'.values := h.perm.map Prod.snd

theorem isEmpty_eq (h : t.Alike t') : t.isEmpty = t'.isEmpty := by
  rw [isEmpty, isEmpty, Bool.eq_iff_iff, List.isEmpty_iff_length_eq_zero,
    List.isEmpty_iff_length_eq_zero, h.perm.length_eq]

/-- Tables that are alike have the same first pair of a key. -/
theorem find?_pairs_eq (h : t.Alike t') (k : String) :
    t.pairs.find? (·.1 == k) = t'.pairs.find? (·.1 == k) := by
  have hvalue := h.find?_eq k
  have hkey : ∀ {ps : List (String × α)} {p}, ps.find? (·.1 == k) = some p → p.1 = k :=
    fun hp => by simpa using List.find?_some hp
  rw [find?, find?] at hvalue
  cases hp : t.pairs.find? (·.1 == k) with
  | none => simpa [hp, eq_comm] using hvalue
  | some p =>
    cases hp' : t'.pairs.find? (·.1 == k) with
    | none => simp [hp, hp'] at hvalue
    | some p' =>
      have hsnd : p.2 = p'.2 := by simpa [hp, hp'] using hvalue
      exact congrArg some (Prod.ext ((hkey hp).trans (hkey hp').symm) hsnd)

theorem insert (h : t.Alike t') (k : String) (a : α) : (t.insert k a).Alike (t'.insert k a) := by
  refine ⟨?_, fun k' => by rw [find?_insert, find?_insert, h.find?_eq]⟩
  change (put k a t.pairs).Perm (put k a t'.pairs)
  have hpairs := h.find?_pairs_eq k
  cases hp : t.pairs.find? (·.1 == k) with
  | none =>
    rw [put_of_find?_eq_none hp, put_of_find?_eq_none (hpairs ▸ hp)]
    exact h.perm.append_right _
  | some p =>
    refine List.Perm.cons_inv (a := p) ?_
    exact (cons_put_perm hp).trans ((h.perm.cons _).trans (cons_put_perm (hpairs ▸ hp)).symm)

theorem erase (h : t.Alike t') (k : String) : (t.erase k).Alike (t'.erase k) :=
  ⟨h.perm.filter _, fun k' => by rw [find?_erase, find?_erase, h.find?_eq]⟩

end Alike

end Table

/-! ## Orders of a side -/

namespace Orders

variable {o o' o'' : Orders} {f : Decimal → Table Decimal → Table Decimal}

/-- The same orders at the same prices, listed in any order. -/
def Alike (o o' : Orders) : Prop := Ladder.Related Table.Alike o o'

/-- Orders that are rearranged are the same orders. -/
theorem alike_rearrange (hf : ∀ p t, (f p t).Alike t) (o : Orders) : (o.rearrange f).Alike o := by
  refine List.forall₂_map_left_iff.mpr (List.forall₂_same.mpr ?_)
  exact fun r _ => ⟨rfl, hf r.1 r.2⟩

namespace Alike

theorem refl (o : Orders) : o.Alike o := List.forall₂_same.mpr fun _ _ => ⟨rfl, .refl _⟩

theorem symm (h : o.Alike o') : o'.Alike o := by
  refine List.Forall₂.flip (h.imp ?_)
  exact fun r r' hr => ⟨hr.1.symm, hr.2.symm⟩

theorem trans (h : o.Alike o') (h' : o'.Alike o'') : o.Alike o'' :=
  Ladder.Related.trans (fun _ _ _ => Table.Alike.trans) h h'

theorem levelAt (h : o.Alike o') (q : ℚ) : (o.levelAt q).Alike (o'.levelAt q) := by
  have hrung := Ladder.Related.rungAt h q
  rw [Orders.levelAt, Orders.levelAt]
  generalize o.rungAt q = r at hrung
  generalize o'.rungAt q = r' at hrung
  cases hrung with
  | some hr => exact hr
  | none => exact .refl _

theorem sizeAt_eq (h : o.Alike o') (q : ℚ) (id : String) : o.sizeAt q id = o'.sizeAt q id :=
  (h.levelAt q).find?_eq id

theorem wellFormed (h : o.Alike o') (ho : o'.WellFormed) : o.WellFormed := by
  refine ⟨Ladder.Related.ascending h ho.ascending, fun r hr => ?_⟩
  obtain ⟨r', hr', -, halike⟩ := Ladder.Related.exists_of_mem h hr
  exact halike.distinct (ho.distinct r' hr')

theorem level (h : o.Alike o') (p : Decimal) : (o.level p).Alike (o'.level p) := by
  rw [level_eq_levelAt, level_eq_levelAt]
  exact h.levelAt p.toRat

theorem size?_eq (h : o.Alike o') (p : Decimal) (id : String) : o.size? p id = o'.size? p id :=
  (h.level p).find?_eq id

theorem set (h : o.Alike o') (p : Decimal) (id : String) (size : Decimal) :
    (o.set p id size).Alike (o'.set p id size) :=
  Ladder.Related.insert h p ((h.level p).insert id size)

theorem remove (h : o.Alike o') (p : Decimal) (id : String) :
    (o.remove p id).Alike (o'.remove p id) := by
  have hrest := (h.level p).erase id
  rw [Orders.remove, Orders.remove, hrest.isEmpty_eq]
  split_ifs
  · exact Ladder.Related.erase h p
  · exact Ladder.Related.insert h p hrest

/-- The prices are the same. -/
theorem exists_rung_iff (h : o.Alike o') {q : ℚ} :
    (∃ r ∈ o.rungs, r.1.toRat = q) ↔ ∃ r ∈ o'.rungs, r.1.toRat = q := by
  have hprices := congrArg (fun ps => ∃ p ∈ ps, Decimal.toRat p = q) (Ladder.Related.prices h)
  simpa using hprices

end Alike

theorem levelAt_rearrange_of_ne {q : ℚ} (hf : ∀ p t, p.toRat = q → f p t = t) (o : Orders) :
    (o.rearrange f).levelAt q = o.levelAt q := by
  have hrung : (o.rearrange f).rungAt q = o.rungAt q := by
    obtain ⟨rs⟩ := o
    simp only [rearrange, Ladder.rungAt]
    induction rs with
    | nil => rfl
    | cons r rs ih =>
      by_cases hr : r.1.toRat = q
      · simp [hr, hf r.1 r.2 hr]
      · simpa [List.find?_cons, hr] using ih
  rw [levelAt, hrung, levelAt]

end Orders

/-! ## Listing anew -/

instance {α : Type} (t : Table α) : Decidable t.Distinct :=
  inferInstanceAs (Decidable (List.Nodup _))

/-- The orders at a price stand in the reverse of the order in which they came. -/
@[reducible]
def Arrangement.reversed : Arrangement where
  arrange _ t := if t.Distinct then ⟨t.pairs.reverse⟩ else t
  alike _ t := by
    split_ifs with h
    · have hperm : (Table.mk t.pairs.reverse).pairs.Perm t.pairs := List.reverse_perm _
      have hdistinct : (Table.mk t.pairs.reverse).Distinct :=
        (hperm.map Prod.fst).nodup_iff.mpr h
      refine ⟨hperm, fun k => Option.ext fun a => ?_⟩
      rw [Table.find?_eq_some_iff hdistinct, Table.find?_eq_some_iff h, hperm.mem_iff]
    · exact .refl t

namespace OrderIndex

variable [A : Arrangement]

theorem alike_sideOfSnapshot (s : Snapshot) (side : Side) (rows : List RestingOrder) :
    (sideOfSnapshot s side rows).Alike (Orders.ofList rows) :=
  Orders.alike_rearrange (fun _ _ => Arrangement.alike _ _) _

theorem alike_listAnew (d : Diff) (p : Decimal) (o : Orders) : (listAnew d p o).Alike o := by
  refine Orders.alike_rearrange (fun p' t => ?_) o
  split_ifs
  · exact Arrangement.alike _ _
  · exact .refl t

/-- Only the orders at the price that is touched are listed anew. -/
theorem levelAt_listAnew_of_ne (d : Diff) {p : Decimal} {q : ℚ} (h : p.toRat ≠ q) (o : Orders) :
    (listAnew d p o).levelAt q = o.levelAt q := by
  refine Orders.levelAt_rearrange_of_ne (fun p' t hp' => if_neg fun hsame => ?_) o
  exact h ((Decimal.same_iff.mp hsame).symm.trans hp')

end OrderIndex

end MarketFeed
