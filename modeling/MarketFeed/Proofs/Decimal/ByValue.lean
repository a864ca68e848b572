import Mathlib.Data.List.Forall2
import Mathlib.Data.Option.Basic
import MarketFeed.Proofs.Decimal.Difference

/-!
# Results by value

The spelling of an operand never shows in the value of a result. Computations on decimals of the
same values therefore end in the same way: with results of the same values, or with the same
overflow.

## Main definitions

* `SameOutcome`: two computations end with related results or with the same error

## Main results

* `SameOutcome.bind`: steps that end in the same way make up computations that do
* `Decimal.Same.plus`, `Decimal.Same.minus`, `Decimal.Same.dividedBy`: operations on same values
* `Decimal.sameOutcome_sum`: sums of same values
-/

namespace MarketFeed

/-- Two computations end in the same way, with related results or with one error. -/
inductive SameOutcome {ε α β : Type} (R : α → β → Prop) : Except ε α → Except ε β → Prop
  | ok {a : α} {b : β} (h : R a b) : SameOutcome R (.ok a) (.ok b)
  | error (e : ε) : SameOutcome R (.error e) (.error e)

namespace SameOutcome

variable {ε α β γ δ : Type} {R : α → β → Prop} {S : γ → δ → Prop} {x : Except ε α} {y : Except ε β}

/-- Steps that end in the same way make up computations that do. -/
theorem bind (h : SameOutcome R x y) {f : α → Except ε γ} {g : β → Except ε δ}
    (hf : ∀ a b, R a b → SameOutcome S (f a) (g b)) : SameOutcome S (x >>= f) (y >>= g) := by
  cases h with
  | ok h => exact hf _ _ h
  | error e => exact .error e

theorem map (h : SameOutcome R x y) {f : α → γ} {g : β → δ} (hf : ∀ a b, R a b → S (f a) (g b)) :
    SameOutcome S (x.map f) (y.map g) := by
  cases h with
  | ok h => exact .ok (hf _ _ h)
  | error e => exact .error e

theorem exists_ok {a : α} (h : SameOutcome R x y) (hx : x = .ok a) : ∃ b, y = .ok b ∧ R a b := by
  cases h with
  | ok h => exact ⟨_, rfl, Except.ok.inj hx ▸ h⟩
  | error e => exact nomatch hx

theorem refl {R : α → α → Prop} (hR : ∀ a, R a a) (x : Except ε α) : SameOutcome R x x := by
  cases x with
  | ok a => exact .ok (hR a)
  | error e => exact .error e

theorem symm {R : α → α → Prop} {y : Except ε α} (hR : ∀ a b, R a b → R b a)
    (h : SameOutcome R x y) : SameOutcome R y x := by
  cases h with
  | ok h => exact .ok (hR _ _ h)
  | error e => exact .error e

theorem trans {R : α → α → Prop} {y z : Except ε α} (hR : ∀ a b c, R a b → R b c → R a c)
    (h : SameOutcome R x y) (h' : SameOutcome R y z) : SameOutcome R x z := by
  cases h with
  | error e => exact h'
  | ok h =>
    cases h' with
    | ok h' => exact .ok (hR _ _ _ h h')

end SameOutcome

namespace Decimal

variable {a a' b b' c : Decimal}

namespace Same

theorem refl (a : Decimal) : a.Same a := same_iff.mpr rfl

theorem symm (h : a.Same b) : b.Same a := same_iff.mpr (same_iff.mp h).symm

theorem trans (h : a.Same b) (h' : b.Same c) : a.Same c :=
  same_iff.mpr ((same_iff.mp h).trans (same_iff.mp h'))

theorem neg (h : a.Same b) : a.neg.Same b.neg := by
  rw [same_iff] at h ⊢
  rw [toRat_neg, toRat_neg, h]

end Same

/-- A value is rounded to the same decimal by value, or by neither of two operations. -/
theorem rel_of_rounded {q : ℚ} {o o' : Option Decimal} (h : ∀ x, o = some x → Rounded q x)
    (h' : ∀ x, o' = some x → Rounded q x) (hiff : (∃ x, o = some x) ↔ ∃ x, o' = some x) :
    Option.Rel Same o o' := by
  cases o with
  | none =>
    cases o' with
    | none => exact .none
    | some x' => exact nomatch hiff.mpr ⟨x', rfl⟩
  | some x =>
    obtain ⟨x', rfl⟩ := hiff.mp ⟨x, rfl⟩
    exact .some (same_iff.mpr ((h x rfl).toRat_eq (h' x' rfl)))

namespace Same

theorem add (ha : a.Same a') (hb : b.Same b') : Option.Rel Same (a.add b) (a'.add b') := by
  have hvalue : a.toRat + b.toRat = a'.toRat + b'.toRat := by rw [same_iff.mp ha, same_iff.mp hb]
  refine rel_of_rounded (fun _ => add_rounded) (fun _ hx => hvalue ▸ add_rounded hx) ?_
  rw [exists_add_iff, exists_add_iff, hvalue]

theorem sub (ha : a.Same a') (hb : b.Same b') : Option.Rel Same (a.sub b) (a'.sub b') :=
  ha.add hb.neg

theorem div (ha : a.Same a') (hb : b.Same b') : Option.Rel Same (a.div b) (a'.div b') := by
  have hvalue : a.toRat / b.toRat = a'.toRat / b'.toRat := by rw [same_iff.mp ha, same_iff.mp hb]
  refine rel_of_rounded (fun _ => div_rounded) (fun _ hx => hvalue ▸ div_rounded hx) ?_
  rw [exists_div_iff, exists_div_iff, hvalue, same_iff.mp hb]

end Same

theorem sameOutcome_orOverflow (o : Overflow) {x y : Option Decimal} (h : Option.Rel Same x y) :
    SameOutcome Same (orOverflow o x) (orOverflow o y) := by
  cases h with
  | none => exact .error o
  | some h => exact .ok h

namespace Same

theorem plus (ha : a.Same a') (hb : b.Same b') : SameOutcome Same (a.plus b) (a'.plus b') :=
  sameOutcome_orOverflow _ (ha.add hb)

theorem minus (ha : a.Same a') (hb : b.Same b') : SameOutcome Same (a.minus b) (a'.minus b') :=
  sameOutcome_orOverflow _ (ha.sub hb)

theorem dividedBy (ha : a.Same a') (hb : b.Same b') :
    SameOutcome Same (a.dividedBy b) (a'.dividedBy b') :=
  sameOutcome_orOverflow _ (ha.div hb)

end Same

/-- Sums of decimals of the same values, in the same order, end in the same way. -/
theorem sameOutcome_sum {as bs : List Decimal} (h : List.Forall₂ Same as bs) :
    SameOutcome Same (sum as) (sum bs) := by
  have hfrom : ∀ a b, a.Same b → SameOutcome Same (as.foldlM plus a) (bs.foldlM plus b) := by
    induction h with
    | nil => exact fun _ _ => .ok
    | cons hd _ ih => exact fun a b hab => (hab.plus hd).bind ih
  exact hfrom zero zero (.refl zero)

end Decimal

end MarketFeed
