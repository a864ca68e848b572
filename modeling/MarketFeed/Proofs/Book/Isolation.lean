import MarketFeed.Proofs.Book.FreeSums
import MarketFeed.Proofs.Book.Safety

/-!
# Products on their own

The books of all products share one table, into which every update puts a book or changes one. Still
no product notices the others: what an update does is decided by the book of its own product, and
it leaves all other books alone. So what becomes of a product, and what its updates are answered
with, is the same whether the updates of other products come in between or not.

Two runs may list the orders at a price in two ways. That shows in the levels only where a sum of
sizes depends on the order in which they are added up, and then it does show: of two runs on the
same updates one may round a level down and the other round it up. For updates of moderate size
there is no such sum.

## Main definitions

* `Update.ofProduct`: the updates of a product among some
* `Books.answer`: the books after some updates, with the answer to each
* `Books.Throughout`: a property of the book of a product, at every point of a run
* `Books.AddsFreely`: no sum for a product depends on the order, at any point of a run
* `Books.Corresponds`: what the books of a product have in common in two runs
* `Books.Alike`: books that differ in the listing of orders and in the spelling of levels only
* `Books.Agrees`: what is known of a product is the same by value

## Main results

* `Books.find?_receive_of_ne`, `Books.Corresponds.receive`: what one update leaves alone, and what
  it keeps in common
* `Books.Corresponds.answer`: a run with and without the updates of other products
* `Books.corresponds_eq`, `Books.corresponds_alike`: the same books under one arrangement, and
  books that are alike under two
* `Books.answer_isolated`: products do not notice each other, in whatever order updates come
* `Books.answer_rounded`: a level that depends on the listing of its orders
* `Books.addsFreely_of_moderate`: sums of updates of moderate size do not depend on it
-/

namespace MarketFeed

theorem cases_of_rel {α β : Type} {R : α → β → Prop} {x : Option α} {y : Option β}
    (h : Option.Rel R x y) : (x = none ∧ y = none) ∨ ∃ a b, x = some a ∧ y = some b ∧ R a b := by
  cases h with
  | none => exact .inl ⟨rfl, rfl⟩
  | some h => exact .inr ⟨_, _, rfl, rfl, h⟩

theorem rel_eq_iff {α : Type} {x y : Option α} : Option.Rel Eq x y ↔ x = y := by
  constructor
  · intro h
    rcases cases_of_rel h with ⟨rfl, rfl⟩ | ⟨_, _, rfl, rfl, rfl⟩ <;> rfl
  · rintro rfl
    cases x with
    | none => exact .none
    | some a => exact .some rfl

namespace Update

/-- the updates of a product -/
def ofProduct (id : String) (us : List Update) : List Update := us.filter fun u => u.productId = id

theorem ofProduct_cons_self (u : Update) (us : List Update) :
    ofProduct u.productId (u :: us) = u :: ofProduct u.productId us := by
  simp [ofProduct]

theorem ofProduct_cons_of_ne {id : String} {u : Update} (h : u.productId ≠ id) (us : List Update) :
    ofProduct id (u :: us) = ofProduct id us := by
  simp [ofProduct, h]

theorem ofProduct_ofProduct (id : String) (us : List Update) :
    ofProduct id (ofProduct id us) = ofProduct id us := by
  simp [ofProduct]

/-- updates of two products in turn, two of them late -/
def mixedSamples : List Update :=
  let other := { sampleSnapshot with productId := "ETH-USD", sequence := 3 }
  let opened (sequence : ℕ) : Update :=
    .diff ⟨⟨"ETH-USD", sequence, default, .buy⟩, .opened "w" (.ofNat 98) .one⟩
  .snapshot sampleSnapshot :: opened 4 :: .snapshot other ::
    (sampleDiffs.map .diff ++ [opened 3, opened 4, .snapshot sampleSnapshot])

theorem moderate_mixedSamples : Moderate mixedSamples :=
  .of_scale_le (by decide +kernel) (by decide +kernel) (by decide +kernel)

/-- a snapshot with a bid that is as great as one with three decimal places can be, and two small
ones, between snapshots of another product -/
def roundedSamples : List Update :=
  let other (sequence : ℕ) : Snapshot := { sampleSnapshot with productId := "ETH-USD", sequence }
  let bid (id : String) (size : Decimal) : RestingOrder := ⟨.one, size, id⟩
  let small : Decimal := ⟨4, 4, by decide, by decide⟩
  [.snapshot (other 1), .snapshot {
    productId := "BTC-USD"
    timestamp := default
    sequence := 1
    bids := [bid "x" ⟨79228162514264337593543950335, 3, by decide, by decide⟩, bid "y" small,
      bid "z" small]
    asks := [] }, .snapshot (other 2)]

end Update

namespace Books

variable {b b' c c' : Books} {u : Update} {us us' : List Update} {id : String} {applied : Bool}
  {answers : List (Update × Bool)} {P : TrackedBook → Prop} {R : TrackedBook → TrackedBook → Prop}

section Runs

variable [A : Arrangement]

/-- the books after some updates, and each update with whether it was applied -/
def answer : Books → List Update → Except Overflow (Books × List (Update × Bool))
  | b, [] => .ok (b, [])
  | b, u :: us => do
    let (b, applied) ← b.receive u
    let (b, answers) ← b.answer us
    return (b, (u, applied) :: answers)

/-- the answers to the updates of a product -/
def answersOf (id : String) (answers : List (Update × Bool)) : List (Update × Bool) :=
  answers.filter fun a => a.1.productId = id

theorem answer_cons_eq_ok_iff :
    b.answer (u :: us) = .ok (b', answers) ↔ ∃ b₁ applied rest, b.receive u = .ok (b₁, applied) ∧
      b₁.answer us = .ok (b', rest) ∧ answers = (u, applied) :: rest := by
  constructor
  · intro h
    obtain ⟨⟨b₁, applied⟩, hreceive, h⟩ := bind_eq_ok_iff.mp h
    obtain ⟨⟨b₂, rest⟩, hrest, h⟩ := bind_eq_ok_iff.mp h
    cases h
    exact ⟨b₁, applied, rest, hreceive, hrest, rfl⟩
  · rintro ⟨b₁, applied, rest, hreceive, hrest, rfl⟩
    exact bind_eq_ok_iff.mpr ⟨(b₁, applied), hreceive,
      bind_eq_ok_iff.mpr ⟨(b', rest), hrest, rfl⟩⟩

/-! ## One update -/

/-- An update leaves the books as they are, or puts a book in the place of that of its product. -/
theorem receive_eq_insert (h : b.receive u = .ok (b', applied)) :
    b' = b ∨ ∃ t, b' = ⟨b.entries.insert u.productId t⟩ := by
  cases u with
  | diff d =>
    rw [receive, applyDiff] at h
    cases hfind : b.find? d.productId with
    | none =>
      simp only [hfind] at h
      cases h
      exact .inl rfl
    | some t =>
      simp only [hfind] at h
      split at h
      · cases h
        exact .inl rfl
      · obtain ⟨⟨t', applied'⟩, -, h⟩ := bind_eq_ok_iff.mp h
        cases h
        exact .inr ⟨t', rfl⟩
  | snapshot s =>
    rw [receive, applySnapshot] at h
    split at h
    · cases h
      exact .inl rfl
    · obtain ⟨t, -, h⟩ := bind_eq_ok_iff.mp h
      cases h
      exact .inr ⟨t, rfl⟩

/-- An update leaves the books of other products alone. -/
theorem find?_receive_of_ne (h : b.receive u = .ok (b', applied)) (hid : u.productId ≠ id) :
    b'.find? id = b.find? id := by
  rcases receive_eq_insert h with rfl | ⟨t, rfl⟩
  · rfl
  · rw [find?_insert, if_neg hid]

/-! ## Runs -/

/-- The book of a product has a property at every point of a run. -/
def Throughout (P : TrackedBook → Prop) (id : String) (b : Books) (us : List Update) : Prop :=
  ∀ us₁ b₁ answers, us₁ <+: us → b.answer us₁ = .ok (b₁, answers) → ∀ t ∈ b₁.find? id, P t

theorem throughout_nil_iff : Throughout P id b [] ↔ ∀ t ∈ b.find? id, P t := by
  constructor
  · exact fun h => h [] b [] (List.prefix_refl []) rfl
  · intro h us₁ b₁ answers hpre hrun
    obtain rfl := List.prefix_nil.mp hpre
    cases hrun
    exact h

theorem throughout_cons_iff : Throughout P id b (u :: us) ↔
    (∀ t ∈ b.find? id, P t) ∧
      ∀ b₁ applied, b.receive u = .ok (b₁, applied) → Throughout P id b₁ us := by
  constructor
  · intro h
    refine ⟨h [] b [] List.nil_prefix rfl, fun b₁ applied hreceive us₁ b₂ answers hpre hrun => ?_⟩
    exact h (u :: us₁) b₂ _ (List.cons_prefix_cons.mpr ⟨rfl, hpre⟩)
      (answer_cons_eq_ok_iff.mpr ⟨b₁, applied, answers, hreceive, hrun, rfl⟩)
  · rintro ⟨hfirst, hrest⟩ us₁ b₁ answers hpre hrun
    cases us₁ with
    | nil =>
      cases hrun
      exact hfirst
    | cons u' us₁ =>
      obtain ⟨rfl, hpre'⟩ := List.cons_prefix_cons.mp hpre
      obtain ⟨b₂, applied, rest, hreceive, hrun, -⟩ := answer_cons_eq_ok_iff.mp hrun
      exact hrest b₂ applied hreceive us₁ b₁ rest hpre' hrun

theorem Throughout.head (h : Throughout P id b us) : ∀ t ∈ b.find? id, P t :=
  h [] b [] List.nil_prefix rfl

/-- No sum of the sizes of a product's orders at a price depends on the order in which they are
added up, at any point of a run. -/
def AddsFreely (id : String) (b : Books) (us : List Update) : Prop :=
  Throughout (fun t => t.orders.SumsFreely) id b us

end Runs

/-! ## Two runs -/

/-- What the books of a product have in common in two runs, as long as those of the first one have
a property: books of a snapshot have it in common, and so have books that a diff comes to. -/
structure Corresponds (σ τ : Arrangement) (P : TrackedBook → Prop)
    (R : TrackedBook → TrackedBook → Prop) : Prop where
  lastUpdateId_eq : ∀ t t', R t t' → t.levels.lastUpdateId = t'.levels.lastUpdateId
  ofSnapshot : ∀ s t, TrackedBook.ofSnapshot (A := σ) s = .ok t → P t →
    ∃ t', TrackedBook.ofSnapshot (A := τ) s = .ok t' ∧ R t t'
  apply : ∀ t t' d u applied, R t t' → TrackedBook.apply (A := σ) t d = .ok (u, applied) → P u →
    ∃ u', TrackedBook.apply (A := τ) t' d = .ok (u', applied) ∧ R u u'

namespace Corresponds

variable {σ τ : Arrangement}

theorem lastUpdateId?_eq (hR : Corresponds σ τ P R) (h : Option.Rel R (b.find? id) (c.find? id)) :
    b.lastUpdateId? id = c.lastUpdateId? id := by
  rw [lastUpdateId?, lastUpdateId?]
  rcases cases_of_rel h with ⟨hb, hc⟩ | ⟨t, t', hb, hc, hrel⟩
  · rw [hb, hc]
  · rw [hb, hc]
    exact congrArg some (hR.lastUpdateId_eq t t' hrel)

/-- An update of a product keeps in common what its books have in common. -/
theorem receive (hR : Corresponds σ τ P R)
    (h : Option.Rel R (b.find? u.productId) (c.find? u.productId))
    (hreceive : Books.receive (A := σ) b u = .ok (b', applied))
    (hP : ∀ t ∈ b'.find? u.productId, P t) :
    ∃ c', Books.receive (A := τ) c u = .ok (c', applied) ∧
      Option.Rel R (b'.find? u.productId) (c'.find? u.productId) := by
  have hbooks := cases_of_rel h
  cases u with
  | diff d =>
    simp only [Books.receive, applyDiff, Update.productId] at hreceive h hP hbooks ⊢
    rcases hbooks with ⟨hb, hc⟩ | ⟨t, t', hb, hc, hrel⟩
    · simp only [hb, hc] at hreceive ⊢
      cases hreceive
      exact ⟨c, rfl, h⟩
    · simp only [hb, hc, ← hR.lastUpdateId_eq t t' hrel] at hreceive ⊢
      by_cases hstale : d.sequence ≤ t.levels.lastUpdateId
      · rw [if_pos hstale] at hreceive ⊢
        cases hreceive
        exact ⟨c, rfl, h⟩
      · rw [if_neg hstale] at hreceive ⊢
        obtain ⟨⟨t₁, applied'⟩, happly, hreceive⟩ := bind_eq_ok_iff.mp hreceive
        cases hreceive
        obtain ⟨t₁', happly', hrel'⟩ := hR.apply t t' d t₁ applied' hrel happly
          (hP t₁ (find?_insert_self b d.productId t₁))
        refine ⟨_, bind_eq_ok happly' rfl, ?_⟩
        rw [find?_insert_self, find?_insert_self]
        exact .some hrel'
  | snapshot s =>
    have hlast : b.lastUpdateId? s.productId = c.lastUpdateId? s.productId :=
      hR.lastUpdateId?_eq h
    simp only [Books.receive, applySnapshot, Update.productId, hlast] at hreceive h hP ⊢
    by_cases hstale : (c.lastUpdateId? s.productId).any (s.sequence ≤ ·)
    · rw [if_pos hstale] at hreceive ⊢
      cases hreceive
      exact ⟨c, rfl, h⟩
    · rw [if_neg hstale] at hreceive ⊢
      obtain ⟨t, ht, hreceive⟩ := bind_eq_ok_iff.mp hreceive
      cases hreceive
      obtain ⟨t', ht', hrel⟩ := hR.ofSnapshot s t ht
        (hP t (find?_insert_self b s.productId t))
      refine ⟨_, bind_eq_ok ht' rfl, ?_⟩
      rw [find?_insert_self, find?_insert_self]
      exact .some hrel

/-- **The updates of other products do not show.** What books of a product have in common they
still have in common when one run takes some updates and the other only those of the product, and
these are answered in the same way. -/
theorem answer (hR : Corresponds σ τ P R) (h : Option.Rel R (b.find? id) (c.find? id))
    (hP : Throughout (A := σ) P id b us)
    (hanswer : Books.answer (A := σ) b us = .ok (b', answers)) :
    ∃ c', Books.answer (A := τ) c (Update.ofProduct id us) = .ok (c', answersOf id answers) ∧
      Option.Rel R (b'.find? id) (c'.find? id) := by
  induction us generalizing b c answers with
  | nil =>
    cases hanswer
    exact ⟨c, rfl, h⟩
  | cons u us ih =>
    obtain ⟨b₁, applied, rest, hreceive, hrest, rfl⟩ :=
      (answer_cons_eq_ok_iff (A := σ)).mp hanswer
    have hP₁ := ((throughout_cons_iff (A := σ)).mp hP).2 b₁ applied hreceive
    by_cases hid : u.productId = id
    · subst hid
      obtain ⟨c₁, hreceive', h₁⟩ := hR.receive h hreceive (hP₁.head (A := σ))
      obtain ⟨c', hrest', hfinal⟩ := ih h₁ hP₁ hrest
      refine ⟨c', ?_, hfinal⟩
      rw [Update.ofProduct_cons_self]
      refine answer_cons_eq_ok_iff.mpr ⟨c₁, applied, _, hreceive', hrest', ?_⟩
      simp [answersOf]
    · have h₁ : Option.Rel R (b₁.find? id) (c.find? id) := by
        rwa [find?_receive_of_ne (A := σ) hreceive hid]
      obtain ⟨c', hrest', hfinal⟩ := ih h₁ hP₁ hrest
      refine ⟨c', ?_, hfinal⟩
      have hanswers : answersOf id ((u, applied) :: rest) = answersOf id rest := by
        simp [answersOf, hid]
      rw [Update.ofProduct_cons_of_ne hid, hanswers, hrest']

end Corresponds

/-! ### One arrangement -/

section OneArrangement

variable [A : Arrangement]

theorem corresponds_eq : Corresponds A A (fun _ => True) Eq where
  lastUpdateId_eq _ _ := by rintro rfl; rfl
  ofSnapshot _ t ht _ := ⟨t, ht, rfl⟩
  apply _ _ _ u _ := by
    rintro rfl happly -
    exact ⟨u, happly, rfl⟩

/-- A run with and without the updates of other products. -/
theorem answer_ofProduct (hsame : b.find? id = c.find? id)
    (h : b.answer us = .ok (b', answers)) :
    ∃ c', c.answer (Update.ofProduct id us) = .ok (c', answersOf id answers) ∧
      b'.find? id = c'.find? id := by
  obtain ⟨c', hc', hfinal⟩ := corresponds_eq.answer (rel_eq_iff.mpr hsame)
    (fun _ _ _ _ _ _ _ => trivial) h
  exact ⟨c', hc', rel_eq_iff.mp hfinal⟩

/-- Updates can be taken in any mixture if those of each product can be taken alone. -/
theorem exists_answer (h : ∀ id, ∃ r, b.answer (Update.ofProduct id us) = .ok r) :
    ∃ r, b.answer us = .ok r := by
  induction us generalizing b with
  | nil => exact ⟨_, rfl⟩
  | cons u us ih =>
    obtain ⟨⟨b', answers⟩, hown⟩ := h u.productId
    rw [Update.ofProduct_cons_self] at hown
    obtain ⟨b₁, applied, rest, hreceive, hown, -⟩ := answer_cons_eq_ok_iff.mp hown
    have hrest : ∀ id, ∃ r, b₁.answer (Update.ofProduct id us) = .ok r := by
      intro id
      by_cases hid : u.productId = id
      · subst hid
        exact ⟨_, hown⟩
      · obtain ⟨⟨c, as⟩, hother⟩ := h id
        rw [Update.ofProduct_cons_of_ne hid] at hother
        obtain ⟨c', hother', -⟩ := answer_ofProduct (find?_receive_of_ne hreceive hid).symm hother
        rw [Update.ofProduct_ofProduct] at hother'
        exact ⟨_, hother'⟩
    obtain ⟨⟨b₂, rest'⟩, hrest⟩ := ih hrest
    exact ⟨_, answer_cons_eq_ok_iff.mpr ⟨b₁, applied, rest', hreceive, hrest, rfl⟩⟩

end OneArrangement

/-! ### Two arrangements -/

/-- The books of a product differ in the listing of orders and in the spelling of levels only. -/
def AlikeAt (id : String) (b c : Books) : Prop :=
  Option.Rel TrackedBook.Alike (b.find? id) (c.find? id)

/-- So do those of all products. -/
def Alike (b c : Books) : Prop := ∀ id, AlikeAt id b c

theorem Alike.refl (b : Books) : b.Alike b := fun id => by
  rw [AlikeAt]
  cases b.find? id with
  | none => exact .none
  | some t => exact .some (.refl t)

/-- What is known of a product is the same by value: its last update, its state at every depth, or
that there is none for the same reason, and its orders. -/
structure Agrees (id : String) (b c : Books) : Prop where
  lastUpdateId?_eq : b.lastUpdateId? id = c.lastUpdateId? id
  state? : ∀ depth, SameOutcome (Option.Rel BookState.Same) (b.state? id depth) (c.state? id depth)
  orders : Option.Rel OrderIndex.Alike ((b.find? id).map TrackedBook.orders)
    ((c.find? id).map TrackedBook.orders)

theorem AlikeAt.agrees (h : AlikeAt id b c) : Agrees id b c := by
  rcases cases_of_rel h with ⟨hb, hc⟩ | ⟨t, t', hb, hc, halike⟩
  · refine ⟨?_, fun depth => ?_, ?_⟩
    · rw [lastUpdateId?, lastUpdateId?, hb, hc]
    · rw [Books.state?, Books.state?, hb, hc]
      exact .ok .none
    · rw [hb, hc]
      exact .none
  · refine ⟨?_, fun depth => ?_, ?_⟩
    · rw [lastUpdateId?, lastUpdateId?, hb, hc]
      exact congrArg some halike.levels.lastUpdateId_eq
    · rw [Books.state?, Books.state?, hb, hc]
      exact (halike.levels.state depth).map fun _ _ => .some
    · rw [hb, hc]
      exact .some halike.orders

/-- **Books that are alike stay alike** under two arrangements, as long as no sum depends on the
order of adding. -/
theorem corresponds_alike (σ τ : Arrangement) :
    Corresponds σ τ (fun t => t.orders.SumsFreely) TrackedBook.Alike where
  lastUpdateId_eq _ _ h := h.levels.lastUpdateId_eq
  ofSnapshot s t ht hfree := by
    rw [TrackedBook.orders_ofSnapshot (A := σ) ht, OrderIndex.sumsFreely_ofSnapshot_iff] at hfree
    exact TrackedBook.exists_alike_ofSnapshot (σ := σ) (τ := τ) ht hfree
  apply _ _ _ _ _ h happly hfree := h.apply (τ := τ) happly hfree

/-! ## Updates of moderate size -/

theorem Sized.sumsFreely {v : ℚ} (h : b.Sized v) (hv : v < 10 ^ 20) :
    ∀ t ∈ b.find? id, t.orders.SumsFreely := fun t ht =>
  OrderIndex.sumsFreely_of_bounded (h id t ht).consistent.wellFormed (h id t ht).bounded hv

theorem Sized.addsFreely [A : Arrangement] {v : ℚ} (h : b.Sized v) (hnonneg : 0 ≤ v)
    (hprices : ∀ u ∈ us, ∀ p ∈ u.prices, Decimal.IsPrice p.toRat)
    (hsizes : ∀ u ∈ us, ∀ a ∈ u.sizes, Decimal.IsQuantity a.toRat)
    (hv : v + Update.totalSize us < 10 ^ 20) (id : String) : AddsFreely id b us := by
  induction us generalizing b v with
  | nil =>
    refine throughout_nil_iff.mpr (h.sumsFreely ?_)
    simpa [Update.totalSize] using hv
  | cons u us ih =>
    obtain ⟨hprice, hprices⟩ := List.forall_mem_cons.mp hprices
    obtain ⟨hsize, hsizes⟩ := List.forall_mem_cons.mp hsizes
    rw [Update.totalSize_cons, ← add_assoc] at hv
    have hrest := Update.totalSize_nonneg hsizes
    have hfirst := Decimal.sum_toRat_nonneg hsize
    have hv₁ : v + (u.sizes.map Decimal.toRat).sum < 10 ^ 20 :=
      (le_add_of_nonneg_right hrest).trans_lt hv
    refine throughout_cons_iff.mpr ⟨h.sumsFreely ?_, ?_⟩
    · exact (le_add_of_nonneg_right hfirst).trans_lt hv₁
    · intro b₁ applied hreceive
      obtain ⟨b₂, applied', hreceive', h₂⟩ := h.receive hnonneg hprice hsize hv₁
      cases hreceive.symm.trans hreceive'
      exact ih h₂ (add_nonneg hnonneg hfirst) hprices hsizes hv

/-- **Sums of updates of moderate size do not depend on the order of adding.** -/
theorem addsFreely_of_moderate [A : Arrangement] (h : Update.Moderate us) (id : String) :
    AddsFreely id empty us := by
  refine Sized.empty.addsFreely le_rfl h.price h.quantity ?_ id
  rw [zero_add]
  exact h.total_lt

/-! ## Isolation -/

/-- **Products do not notice each other.** If some updates can be taken and no sum for a product
depends on the order of adding, the updates of that product can be taken alone, and whatever the
listing of orders is in either run, these are answered in the same way and lead to the same book:
the same last update, the same state at every depth and the same orders. If that holds for all
products it does not matter in which order the updates of different products come. -/
theorem answer_isolated (σ τ : Arrangement) (hstart : b.Alike c)
    (h : b.answer (A := σ) us = .ok (b', answers)) :
    (∀ id, AddsFreely (A := σ) id b us →
      ∃ c', c.answer (A := τ) (Update.ofProduct id us) = .ok (c', answersOf id answers) ∧
        Agrees id b' c') ∧
    ((∀ id, AddsFreely (A := σ) id b us) →
      ∀ us', (∀ id, Update.ofProduct id us' = Update.ofProduct id us) →
        ∃ c' answers', c.answer (A := τ) us' = .ok (c', answers') ∧
          ∀ id, answersOf id answers' = answersOf id answers ∧ Agrees id b' c') := by
  constructor
  · intro id hfree
    obtain ⟨c', hc', halike⟩ := (corresponds_alike σ τ).answer (hstart id) hfree h
    exact ⟨c', hc', AlikeAt.agrees halike⟩
  · intro hfree us' hus'
    have halone (id : String) := (corresponds_alike σ τ).answer (hstart id) (hfree id) h
    have hexists : ∀ id, ∃ r, c.answer (A := τ) (Update.ofProduct id us') = .ok r := fun id => by
      obtain ⟨c', hc', -⟩ := halone id
      exact ⟨_, hus' id ▸ hc'⟩
    obtain ⟨⟨c', answers'⟩, hc'⟩ := exists_answer (A := τ) hexists
    refine ⟨c', answers', hc', fun id => ?_⟩
    obtain ⟨c₁, h₁, halike⟩ := halone id
    obtain ⟨c₂, h₂, hfinal⟩ := answer_ofProduct (A := τ) (rfl : c.find? id = c.find? id) hc'
    rw [hus' id, h₁] at h₂
    obtain ⟨rfl, hanswers⟩ := Prod.mk.inj (Except.ok.inj h₂)
    refine ⟨hanswers.symm, AlikeAt.agrees ?_⟩
    rw [AlikeAt, hfinal]
    exact halike

theorem answer_isolated_sample :
    ∃ b' answers, empty.answer (A := .arrival) Update.mixedSamples = .ok (b', answers) ∧
      answers.map Prod.snd =
        [true, false, true, true, true, true, true, true, false, true, false] ∧
      (∀ id, ∃ c', empty.answer (A := .reversed) (Update.ofProduct id Update.mixedSamples) =
        .ok (c', answersOf id answers) ∧ Agrees id b' c') ∧
      ∀ us', (∀ id, Update.ofProduct id us' = Update.ofProduct id Update.mixedSamples) →
        ∃ c' answers', empty.answer (A := .reversed) us' = .ok (c', answers') ∧
          ∀ id, answersOf id answers' = answersOf id answers ∧ Agrees id b' c' := by
  have hanswers : ∃ r ∈ (empty.answer (A := .arrival) Update.mixedSamples).toOption,
      r.2.map Prod.snd =
        [true, false, true, true, true, true, true, true, false, true, false] := by
    decide +kernel
  obtain ⟨⟨b', answers⟩, hr, hbits⟩ := hanswers
  have hok := mem_toOption_iff.mp hr
  have hfree := addsFreely_of_moderate (A := .arrival) Update.moderate_mixedSamples
  obtain ⟨halone, hmixed⟩ := answer_isolated .arrival .reversed (.refl empty) hok
  exact ⟨b', answers, hok, hbits, fun id => halone id (hfree id), hmixed hfree⟩

/-- **A level can depend on the listing of its orders.** A product has one book after some updates,
and another one after its own: added to the great size one by one, the small ones are rounded off,
and together they are rounded up. -/
theorem answer_rounded :
    ∃ b c answers answers' s s',
      empty.answer (A := .arrival) Update.roundedSamples = .ok (b, answers) ∧
      empty.answer (A := .reversed) (Update.ofProduct "BTC-USD" Update.roundedSamples) =
        .ok (c, answers') ∧
      b.state? "BTC-USD" 1 = .ok (some s) ∧ c.state? "BTC-USD" 1 = .ok (some s') ∧
      s.bids.map (fun l => l.quantity.toRat) = [79228162514264337593543950 + 335 / 1000] ∧
      s'.bids.map (fun l => l.quantity.toRat) = [79228162514264337593543950 + 34 / 100] := by
  have hdown : ∃ r ∈ (empty.answer (A := .arrival) Update.roundedSamples).toOption,
      ∃ s? ∈ (r.1.state? "BTC-USD" 1).toOption, ∃ s ∈ s?,
        s.bids.map (fun l => l.quantity.toRat) = [79228162514264337593543950 + 335 / 1000] := by
    decide +kernel
  have hup : ∃ r ∈ (empty.answer (A := .reversed)
        (Update.ofProduct "BTC-USD" Update.roundedSamples)).toOption,
      ∃ s? ∈ (r.1.state? "BTC-USD" 1).toOption, ∃ s ∈ s?,
        s.bids.map (fun l => l.quantity.toRat) = [79228162514264337593543950 + 34 / 100] := by
    decide +kernel
  obtain ⟨⟨b, answers⟩, hb, _, hstate, s, rfl, hbids⟩ := hdown
  obtain ⟨⟨c, answers'⟩, hc, _, hstate', s', rfl, hbids'⟩ := hup
  exact ⟨b, c, answers, answers', s, s', mem_toOption_iff.mp hb, mem_toOption_iff.mp hc,
    mem_toOption_iff.mp hstate, mem_toOption_iff.mp hstate', hbids, hbids'⟩

end Books

end MarketFeed
