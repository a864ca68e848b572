import MarketFeed.Proofs.Book.Consistency
import MarketFeed.Proofs.Book.Replay

/-!
# Books that updates lead to

The books begin with snapshots and receive diffs and snapshots of any product in any order. On the
way every product stays consistent, so a diff that is later than its product's book is applied to
orders and levels alike, and an update that is not applied changes nothing.

## Main definitions

* `Books.receive`, `Books.run`: the books after one update, and after a list of them
* `Books.IsNews`: an update is later than what the books hold of its product
* `Books.Outcome`: what an update can do
* `Books.Reachable`: books that updates lead to

## Main results

* `Books.Consistent.outcome`: what an update does to consistent books
* `Books.Reachable.consistent`: the products of reachable books are consistent
* `Books.Reachable.levels_eq_totals`: their levels are the totals of their orders
* `Books.Reachable.receive_news`: an update is applied completely or not at all
-/

namespace MarketFeed

namespace Update

/-- the product that an update is about -/
def productId : Update → String
  | .diff d => d.productId
  | .snapshot s => s.productId

/-- the place of an update in the stream of its product -/
def sequence : Update → ℕ
  | .diff d => d.sequence
  | .snapshot s => s.sequence

/-- the sequences of the updates of a product -/
def sequencesOf (id : String) (us : List Update) : List ℕ :=
  (us.filter fun u => u.productId = id).map sequence

theorem sequencesOf_cons_self (u : Update) (us : List Update) :
    sequencesOf u.productId (u :: us) = u.sequence :: sequencesOf u.productId us := by
  simp [sequencesOf]

theorem sequencesOf_cons_of_ne {id : String} {u : Update} (h : u.productId ≠ id)
    (us : List Update) : sequencesOf id (u :: us) = sequencesOf id us := by
  simp [sequencesOf, h]

end Update

namespace Books

variable {b b' : Books} {u : Update} {applied : Bool} {id : String} {t : TrackedBook}

section Runs

variable [A : Arrangement]

/-- the books after an update, and whether it was applied -/
def receive (b : Books) : Update → Except Overflow (Books × Bool)
  | .diff d => b.applyDiff d
  | .snapshot s => b.applySnapshot s

/-- the books after some updates, and those that were applied -/
def run : Books → List Update → Except Overflow (Books × List Update)
  | b, [] => .ok (b, [])
  | b, u :: us => do
    let (b, applied) ← b.receive u
    let (b, news) ← b.run us
    return (b, if applied then u :: news else news)

end Runs

/-- An update is later than the book of its product. A product without a book waits for a
snapshot. -/
def IsNews (b : Books) : Update → Prop
  | .diff d => ∃ n ∈ b.lastUpdateId? d.productId, n < d.sequence
  | .snapshot s => ∀ n ∈ b.lastUpdateId? s.productId, n < s.sequence

theorem IsNews.lt (h : b.IsNews u) : ∀ n ∈ b.lastUpdateId? u.productId, n < u.sequence := by
  cases u with
  | snapshot s => exact h
  | diff d =>
    obtain ⟨n, hn, hlt⟩ := h
    intro m hm
    obtain rfl := Option.mem_unique hm hn
    exact hlt

/-- The books of some snapshots, and what updates lead them to. -/
inductive Reachable [A : Arrangement] : Books → Prop
  | start {entries : List (String × TrackedBook)}
      (h : ∀ e ∈ entries, ∃ s, TrackedBook.ofSnapshot s = .ok e.2) : Reachable (ofEntries entries)
  | receive {b b' : Books} {u : Update} {applied : Bool} (h : Reachable b)
      (hreceive : b.receive u = .ok (b', applied)) : Reachable b'

/-- the books that the sample updates lead to -/
def sample : Books := (empty.run Update.samples).toOption.elim empty Prod.fst

/-! ## Products -/

theorem find?_insert (b : Books) (id id' : String) (t : TrackedBook) :
    find? ⟨b.entries.insert id t⟩ id' = if id = id' then some t else b.find? id' :=
  Table.find?_insert b.entries id id' t

theorem find?_insert_self (b : Books) (id : String) (t : TrackedBook) :
    find? ⟨b.entries.insert id t⟩ id = some t := by
  rw [find?_insert, if_pos rfl]

theorem exists_entry_of_find? {entries : List (String × TrackedBook)}
    (h : (ofEntries entries).find? id = some t) : ∃ e ∈ entries, e.2 = t := by
  have hfold : ∀ b : Books,
      find? ⟨entries.foldl (fun t e => t.insert e.1 e.2) b.entries⟩ id = some t →
        (∃ e ∈ entries, e.2 = t) ∨ b.find? id = some t := by
    clear h
    induction entries with
    | nil => exact fun _ h => .inr h
    | cons e entries ih =>
      intro b h
      rcases ih ⟨b.entries.insert e.1 e.2⟩ h with ⟨e', he', ht⟩ | h
      · exact .inl ⟨e', List.mem_cons_of_mem _ he', ht⟩
      rw [find?_insert] at h
      split_ifs at h
      · exact .inl ⟨e, List.mem_cons_self, Option.some.inj h⟩
      · exact .inr h
  rcases hfold empty h with he | h
  · exact he
  · cases h

/-- Every product is consistent. -/
def Consistent (b : Books) : Prop := ∀ id, ∀ t ∈ b.find? id, t.Consistent

theorem Consistent.insert (h : b.Consistent) (ht : t.Consistent) :
    Consistent ⟨b.entries.insert id t⟩ := by
  intro id' t' ht'
  rw [find?_insert] at ht'
  split_ifs at ht'
  · exact Option.some.inj ht' ▸ ht
  · exact h id' t' ht'

/-! ## Updates -/

/-- What an update can do: it is no news and changes nothing, or it is news and puts a consistent
product of its sequence in place. -/
inductive Outcome (b : Books) (u : Update) : Books → Bool → Prop
  | stale (hstale : ¬ b.IsNews u) : Outcome b u b false
  | news {t : TrackedBook} (hnews : b.IsNews u) (ht : t.Consistent)
      (hsequence : t.levels.lastUpdateId = u.sequence) :
      Outcome b u ⟨b.entries.insert u.productId t⟩ true

section Outcomes

variable [A : Arrangement]

/-- The orders take a diff before the levels do, and consistency keeps these from refusing it. -/
theorem Consistent.outcome_diff (h : b.Consistent) {d : Diff}
    (happly : b.applyDiff d = .ok (b', applied)) : b.Outcome (.diff d) b' applied := by
  rw [applyDiff] at happly
  cases hfind : b.find? d.productId with
  | none =>
    simp only [hfind] at happly
    cases happly
    refine .stale ?_
    rintro ⟨n, hn, -⟩
    simp [lastUpdateId?, hfind] at hn
  | some t =>
    have hlast : b.lastUpdateId? d.productId = some t.levels.lastUpdateId := by
      rw [lastUpdateId?, hfind, Option.map_some]
    simp only [hfind] at happly
    by_cases hstale : d.sequence ≤ t.levels.lastUpdateId
    · rw [if_pos hstale] at happly
      cases happly
      refine .stale ?_
      rintro ⟨n, hn, hlt⟩
      obtain rfl := Option.some.inj (hlast.symm.trans hn)
      omega
    · rw [if_neg hstale] at happly
      obtain ⟨⟨t', applied'⟩, hstep, happly⟩ := bind_eq_ok_iff.mp happly
      cases happly
      obtain ⟨rfl, hsequence, hconsistent⟩ :=
        (h d.productId t hfind).apply (not_le.mp hstale) hstep
      exact .news ⟨_, hlast, not_le.mp hstale⟩ hconsistent hsequence

theorem outcome_snapshot {s : Snapshot} (happly : b.applySnapshot s = .ok (b', applied)) :
    b.Outcome (.snapshot s) b' applied := by
  rw [applySnapshot] at happly
  by_cases hstale : (b.lastUpdateId? s.productId).any (s.sequence ≤ ·)
  · rw [if_pos hstale] at happly
    cases happly
    refine .stale fun hnews => ?_
    obtain ⟨n, hn, hle⟩ := (Option.any_eq_true _ _).mp hstale
    exact (hnews n hn).not_ge (by simpa using hle)
  · rw [if_neg hstale] at happly
    obtain ⟨t, ht, happly⟩ := bind_eq_ok_iff.mp happly
    cases happly
    refine .news (fun n hn => not_le.mp fun hle => hstale ?_)
      (TrackedBook.consistent_ofSnapshot ht) (TrackedBook.lastUpdateId_ofSnapshot ht)
    exact (Option.any_eq_true _ _).mpr ⟨n, hn, by simpa using hle⟩

/-- **Consistent books take an update completely or not at all.** -/
theorem Consistent.outcome (h : b.Consistent) (hreceive : b.receive u = .ok (b', applied)) :
    b.Outcome u b' applied := by
  cases u with
  | diff d => exact h.outcome_diff hreceive
  | snapshot s => exact outcome_snapshot hreceive

end Outcomes

namespace Reachable

section Products

variable [A : Arrangement]

theorem consistent (h : b.Reachable) : b.Consistent := by
  induction h with
  | start h =>
    intro id t ht
    obtain ⟨e, he, rfl⟩ := exists_entry_of_find? ht
    obtain ⟨s, hs⟩ := h e he
    exact TrackedBook.consistent_ofSnapshot hs
  | receive _ hreceive ih =>
    cases ih.outcome hreceive with
    | stale _ => exact ih
    | news _ ht _ => exact ih.insert ht

theorem run (h : b.Reachable) {us news : List Update} (hrun : b.run us = .ok (b', news)) :
    b'.Reachable := by
  induction us generalizing b news with
  | nil =>
    cases hrun
    exact h
  | cons u us ih =>
    obtain ⟨⟨b₁, applied⟩, hreceive, hrun⟩ := bind_eq_ok_iff.mp hrun
    obtain ⟨⟨b₂, news'⟩, hrest, hrun⟩ := bind_eq_ok_iff.mp hrun
    cases hrun
    exact ih (h.receive hreceive) hrest

end Products

theorem sample : Books.sample.Reachable := by
  have hempty : Books.empty.Reachable := @start _ [] nofun
  unfold Books.sample
  cases hrun : Books.empty.run Update.samples with
  | error _ => exact hempty
  | ok result => exact hempty.run hrun

section Totals

variable [A : Arrangement]

/-- **The levels of a product are the totals of its orders.** Whatever the books have received,
every book is initialized, at each price of each side there is a level if and only if the orders
there have a positive total, which it shows, and no level is later than its book. As long as no
sum is rounded, the total is the sum of the values. -/
theorem levels_eq_totals (h : b.Reachable) (ht : b.find? id = some t) :
    t.levels.initialized ∧
      (∀ s p, ∃ total, (t.orders.side s).amount p = .ok total ∧
        ((t.levels.side s).find? p).map Standing.amount =
          (if .zero < total then some total else none) ∧
        (Decimal.SumsExactly .zero ((t.orders.side s).level p).values →
          total.toRat = t.orders.flat.total s p.toRat)) ∧
      ∀ s, (t.levels.side s).Ascending ∧
        ∀ r ∈ (t.levels.side s).rungs, r.2.updateId ≤ t.levels.lastUpdateId := by
  have hconsistent := h.consistent id t ht
  refine ⟨hconsistent.initialized, hconsistent.find?_levels, fun s => ?_⟩
  have hagrees := hconsistent.agrees s
  exact ⟨hagrees.ascending, fun r hr => hagrees.stamped r.1.toRat r.2
    (hagrees.ascending.rungAt_eq_some_iff.mpr ⟨r.1, hr, rfl⟩)⟩

end Totals

theorem levels_eq_totals_sample :
    ∃ t, Books.sample.find? "BTC-USD" = some t ∧ t.levels.initialized ∧
      (∀ s p, ∃ total, (t.orders.side s).amount p = .ok total ∧
        ((t.levels.side s).find? p).map Standing.amount =
          (if .zero < total then some total else none) ∧
        (Decimal.SumsExactly .zero ((t.orders.side s).level p).values →
          total.toRat = t.orders.flat.total s p.toRat)) ∧
      ∀ s, (t.levels.side s).Ascending ∧
        ∀ r ∈ (t.levels.side s).rungs, r.2.updateId ≤ t.levels.lastUpdateId := by
  have hfound : (Books.sample.find? "BTC-USD").isSome := by decide +kernel
  obtain ⟨t, ht⟩ := Option.isSome_iff_exists.mp hfound
  exact ⟨t, ht, levels_eq_totals sample ht⟩

section Updates

variable [A : Arrangement]

/-- An update is applied if and only if it is news. One that is not applied changes nothing; one
that is applied brings its product to its sequence and leaves all others. -/
theorem receive_spec (h : b.Reachable) (hreceive : b.receive u = .ok (b', applied)) :
    (applied = true ↔ b.IsNews u) ∧ (applied = false → b' = b) ∧
      (applied = true → b'.lastUpdateId? u.productId = some u.sequence ∧
        ∀ id, id ≠ u.productId → b'.find? id = b.find? id) := by
  cases h.consistent.outcome hreceive with
  | stale hstale => exact ⟨by simp [hstale], fun _ => rfl, nofun⟩
  | news hnews _ hsequence =>
    refine ⟨by simp [hnews], nofun, fun _ => ⟨?_, fun id hid => ?_⟩⟩
    · rw [lastUpdateId?, find?_insert, if_pos rfl, Option.map_some, hsequence]
    · rw [find?_insert, if_neg hid.symm]

/-- The updates of a product that are applied rise from the book that it had, and the last of them
is where its book ends. -/
theorem run_spec (h : b.Reachable) {us news : List Update} (hrun : b.run us = .ok (b', news))
    (id : String) :
    ((b.lastUpdateId? id).toList ++ Update.sequencesOf id news).Pairwise (· < ·) ∧
      b'.lastUpdateId? id =
        ((b.lastUpdateId? id).toList ++ Update.sequencesOf id news).getLast? := by
  induction us generalizing b news with
  | nil =>
    cases hrun
    cases b'.lastUpdateId? id <;> simp [Update.sequencesOf]
  | cons u us ih =>
    obtain ⟨⟨b₁, applied⟩, hreceive, hrun⟩ := bind_eq_ok_iff.mp hrun
    obtain ⟨⟨b₂, news'⟩, hrest, hrun⟩ := bind_eq_ok_iff.mp hrun
    cases hrun
    obtain ⟨hrising, hlast⟩ := ih (h.receive hreceive) hrest
    obtain ⟨happlied, hsame, hnew⟩ := h.receive_spec hreceive
    cases applied with
    | false => exact hsame rfl ▸ ⟨hrising, hlast⟩
    | true =>
      obtain ⟨hsequence, hothers⟩ := hnew rfl
      by_cases hid : u.productId = id
      · subst hid
        rw [hsequence] at hrising hlast
        simp only [if_true, Update.sequencesOf_cons_self]
        refine ⟨List.pairwise_append.mpr ⟨?_, hrising, fun n hn m hm => ?_⟩, ?_⟩
        · cases b.lastUpdateId? u.productId <;> simp
        · have hlt := (happlied.mp rfl).lt n (Option.mem_toList.mp hn)
          rcases List.mem_cons.mp hm with rfl | hm
          · exact hlt
          · exact hlt.trans ((List.pairwise_cons.mp hrising).1 m hm)
        · rw [hlast, List.getLast?_append_of_ne_nil _ (List.cons_ne_nil _ _)]
          rfl
      · have hsame : b₁.lastUpdateId? id = b.lastUpdateId? id := by
          rw [lastUpdateId?, lastUpdateId?, hothers id (Ne.symm hid)]
        simp only [if_true, Update.sequencesOf_cons_of_ne hid]
        exact hsame ▸ ⟨hrising, hlast⟩

/-- **An update is applied completely or not at all.** It is applied if and only if it is news. If
it is not, all books stay as they are, with the orders of its product; if it is, its product's book
ends at its sequence and no other product changes. Over a run, the updates of a product that are
applied rise strictly from the book that it had, and its book ends at the last of them. -/
theorem receive_all_or_nothing (h : b.Reachable) :
    (∀ u b' applied, b.receive u = .ok (b', applied) →
      (applied = true ↔ b.IsNews u) ∧ (applied = false → b' = b) ∧
        (applied = true → b'.lastUpdateId? u.productId = some u.sequence ∧
          ∀ id, id ≠ u.productId → b'.find? id = b.find? id)) ∧
      ∀ us b' news, b.run us = .ok (b', news) → ∀ id,
        ((b.lastUpdateId? id).toList ++ Update.sequencesOf id news).Pairwise (· < ·) ∧
          b'.lastUpdateId? id =
            ((b.lastUpdateId? id).toList ++ Update.sequencesOf id news).getLast? :=
  ⟨fun _ _ _ => h.receive_spec, fun _ _ _ hrun id => h.run_spec hrun id⟩

end Updates

theorem receive_all_or_nothing_sample :
    Books.sample.Reachable ∧ Books.sample.lastUpdateId? "BTC-USD" = some 12 ∧
      (∀ u b' applied, Books.sample.receive u = .ok (b', applied) →
        (applied = true ↔ Books.sample.IsNews u) ∧ (applied = false → b' = Books.sample) ∧
          (applied = true → b'.lastUpdateId? u.productId = some u.sequence ∧
            ∀ id, id ≠ u.productId → b'.find? id = Books.sample.find? id)) ∧
      ∀ us b' news, Books.sample.run us = .ok (b', news) → ∀ id,
        ((Books.sample.lastUpdateId? id).toList ++ Update.sequencesOf id news).Pairwise (· < ·) ∧
          b'.lastUpdateId? id =
            ((Books.sample.lastUpdateId? id).toList ++ Update.sequencesOf id news).getLast? :=
  ⟨sample, by decide +kernel, receive_all_or_nothing sample⟩

end Reachable

end Books

end MarketFeed
