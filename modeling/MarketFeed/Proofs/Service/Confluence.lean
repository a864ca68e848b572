import MarketFeed.Proofs.Book.Reachable
import MarketFeed.Proofs.Book.Volume
import MarketFeed.Service.Consumer

/-!
# Confluence of the feeds

The consumer takes diffs and snapshots from two queues, and nothing tells from which of them the
next one comes. If every snapshot lists the orders that rest after the diffs up to its sequence,
it does not matter: the book always holds what the diffs up to its own sequence make of its first
snapshot. A diff that comes late is already part of it, and a snapshot that comes early runs ahead
of diffs that will then be dropped.

## Main definitions

* `Interleaves`: what the consumer may take from its queues
* `Feeds`: diffs in order and snapshots that list what they lead to
* `TrackedBook.InStep`: a book holds what the diffs up to its sequence lead to

## Main results

* `TrackedBook.InStep.receive_diff`, `TrackedBook.InStep.receive_snapshot`: a single message
* `Consumer.takeAll_inStep`: all messages, from any point on
* `Consumer.takeAll_confluent`: every interleaving ends where the diffs alone do
-/

namespace MarketFeed

open Decimal (IsQuantity)

/-- What the consumer may take from a queue of diffs and a queue of snapshots until both are empty.
A feed can be found closed once its queue is empty. -/
inductive Interleaves : List Diff → List Snapshot → List Delivery → Prop
  | nil : Interleaves [] [] []
  | diff {d : Diff} {ds : List Diff} {ss : List Snapshot} {ms : List Delivery} :
      Interleaves ds ss ms → Interleaves (d :: ds) ss (.diff d :: ms)
  | snapshot {s : Snapshot} {ds : List Diff} {ss : List Snapshot} {ms : List Delivery} :
      Interleaves ds ss ms → Interleaves ds (s :: ss) (.snapshot s :: ms)
  | diffsClosed {ss : List Snapshot} {ms : List Delivery} :
      Interleaves [] ss ms → Interleaves [] ss (.diffsClosed :: ms)
  | snapshotsClosed {ds : List Diff} {ms : List Delivery} :
      Interleaves ds [] ms → Interleaves ds [] (.snapshotsClosed :: ms)

theorem Interleaves.of_diffs (ds : List Diff) : Interleaves ds [] (ds.map .diff) := by
  induction ds with
  | nil => exact .nil
  | cons d ds ih => exact ih.diff

/-- The diffs of a product rise from its first snapshot, every other snapshot lists, in any order,
the orders that the diffs up to its sequence lead to, and the sizes that come up are quantities
with a total below `10 ^ 20`. -/
structure Feeds [A : Arrangement] (productId : String) (base : Snapshot) (ds : List Diff)
    (ss : List Snapshot) : Prop where
  productId_diff : ∀ d ∈ ds, d.productId = productId
  productId_snapshot : ∀ s ∈ ss, s.productId = productId
  rising : (base.sequence :: ds.map fun d => d.sequence).Pairwise (· < ·)
  lists : ∀ s ∈ ss, ∃ x : OrderIndex, (OrderIndex.ofSnapshot base).replay
    (ds.filter fun d => d.sequence ≤ s.sequence) = .ok x ∧ s.entries.Perm x.entries
  quantity : ∀ a ∈ base.sizes ++ Diff.sizesOf ds, IsQuantity a.toRat
  total_lt : ((base.sizes ++ Diff.sizesOf ds).map Decimal.toRat).sum < 10 ^ 20

theorem feeds_samples :
    Feeds "BTC-USD" Update.sampleSnapshot Update.sampleDiffs [Update.sampleListing] where
  productId_diff := by decide
  productId_snapshot := by decide
  rising := by decide
  lists := fun s hs => by
    obtain rfl := List.mem_singleton.mp hs
    have hlisted : ∃ x ∈ ((OrderIndex.ofSnapshot Update.sampleSnapshot).replay
        (Update.sampleDiffs.filter fun d => d.sequence ≤ Update.sampleListing.sequence)).toOption,
        Update.sampleListing.entries.Perm x.entries := by decide +kernel
    obtain ⟨x, hx, hperm⟩ := hlisted
    exact ⟨x, mem_toOption_iff.mp hx, hperm⟩
  quantity := fun a ha => by
    have hall : ∀ a ∈ Update.sampleSnapshot.sizes ++ Diff.sizesOf Update.sampleDiffs,
        0 ≤ a.coefficient ∧ a.scale ≤ 8 := by decide
    exact .of_scale_le (hall a ha).1 (hall a ha).2
  total_lt := by decide +kernel

namespace Feeds

variable [A : Arrangement] {productId : String} {base : Snapshot} {ds ds' : List Diff}
  {ss : List Snapshot}

theorem quantity_base (h : Feeds productId base ds ss) : ∀ a ∈ base.sizes, IsQuantity a.toRat :=
  fun a ha => h.quantity a (List.mem_append_left _ ha)

theorem quantity_diffs (h : Feeds productId base ds ss) (hsub : ds'.Sublist ds) :
    ∀ a ∈ Diff.sizesOf ds', IsQuantity a.toRat :=
  fun a ha => h.quantity a (List.mem_append_right _ ((hsub.flatMap _).mem ha))

theorem total_sublist_lt (h : Feeds productId base ds ss) (hsub : ds'.Sublist ds) :
    (base.sizes.map Decimal.toRat).sum + ((Diff.sizesOf ds').map Decimal.toRat).sum < 10 ^ 20 := by
  have hle : ((Diff.sizesOf ds').map Decimal.toRat).sum ≤
      ((Diff.sizesOf ds).map Decimal.toRat).sum := by
    refine ((hsub.flatMap _).map Decimal.toRat).sum_le_sum fun q hq => ?_
    obtain ⟨a, ha, rfl⟩ := List.mem_map.mp hq
    exact (h.quantity_diffs (List.Sublist.refl ds) a ha).nonneg
  have htotal := h.total_lt
  rw [List.map_append, List.sum_append] at htotal
  linarith

theorem bounded_base (h : Feeds productId base ds ss) :
    (FlatOrders.ofSnapshot base).Bounded (base.sizes.map Decimal.toRat).sum :=
  .ofSnapshot h.quantity_base

/-- Some of the diffs lead to orders within the bound. -/
theorem bounded_replay (h : Feeds productId base ds ss) (hsub : ds'.Sublist ds) :
    ((FlatOrders.ofSnapshot base).replay ds').Bounded
      ((base.sizes.map Decimal.toRat).sum + ((Diff.sizesOf ds').map Decimal.toRat).sum) :=
  h.bounded_base.replay (h.quantity_diffs hsub)

/-- Some of the diffs can be replayed on the first snapshot, however the maps list the orders. -/
theorem exists_replay (h : Feeds productId base ds ss) (hsub : ds'.Sublist ds) (τ : Arrangement) :
    ∃ x, (OrderIndex.ofSnapshot (A := τ) base).replay (A := τ) ds' = .ok x ∧ x.WellFormed ∧
      x.flat = (FlatOrders.ofSnapshot base).replay ds' := by
  have hbounded := h.bounded_base (A := A)
  rw [← OrderIndex.flat_ofSnapshot] at hbounded ⊢
  exact OrderIndex.exists_replay (OrderIndex.WellFormed.ofSnapshot base) hbounded
    (h.quantity_diffs (A := A) hsub) (h.total_sublist_lt (A := A) hsub)

/-- A snapshot has the orders that the diffs up to its sequence lead to. -/
theorem ofSnapshot_eq_replay (h : Feeds productId base ds ss) {s : Snapshot} (hs : s ∈ ss) :
    FlatOrders.ofSnapshot s =
      (FlatOrders.ofSnapshot base).replay (ds.filter fun d => d.sequence ≤ s.sequence) := by
  obtain ⟨y, hy, hwf, hflat⟩ := h.exists_replay List.filter_sublist A
  obtain ⟨x, hx, hperm⟩ := h.lists s hs
  obtain rfl := Except.ok.inj (hx.symm.trans hy)
  rw [OrderIndex.ofSnapshot_eq_flat hwf hperm, hflat]

/-- The next diff is taken exactly by the orders that the diffs before it lead to. -/
theorem takesExactly (h : Feeds productId base ds ss) {x : OrderIndex} (hx : x.WellFormed)
    {d : Diff} (hflat : x.flat = (FlatOrders.ofSnapshot base).replay ds')
    (hsub : (ds' ++ [d]).Sublist ds) : x.TakesExactly (.diff d) := by
  have hbounded := hflat ▸ h.bounded_replay ((List.sublist_append_left ds' [d]).trans hsub)
  have hsizes : Diff.sizesOf (ds' ++ [d]) = Diff.sizesOf ds' ++ d.event.sizes := by
    simp [Diff.sizesOf]
  have hquantity := h.quantity_diffs hsub
  have htotal := h.total_sublist_lt hsub
  rw [hsizes] at hquantity
  rw [hsizes, List.map_append, List.sum_append, ← add_assoc] at htotal
  exact OrderIndex.takesExactly_diff hx hbounded
    (fun a ha => hquantity a (List.mem_append_right _ ha)) htotal

/-- The orders of snapshots are listed in any order, so it does not matter how the maps list
them. -/
theorem of_arrangement (h : Feeds productId base ds ss) (τ : Arrangement) :
    Feeds (A := τ) productId base ds ss where
  __ := h
  lists s hs := by
    obtain ⟨x, hx, hperm⟩ := h.lists (A := A) s hs
    obtain ⟨x', hx', hwf, hflat⟩ := h.exists_replay (A := A) List.filter_sublist A
    obtain rfl := Except.ok.inj (hx.symm.trans hx')
    obtain ⟨y, hy, hwf', hflat'⟩ := h.exists_replay (A := A) List.filter_sublist τ
    refine ⟨y, hy, hperm.trans ?_⟩
    rw [← Multiset.coe_eq_coe, ← OrderIndex.entries_flat hwf, ← OrderIndex.entries_flat hwf',
      hflat, hflat']

/-- Up to a sequence that has been reached before a diff there are the diffs before it, and up to
its own sequence there is also the diff itself. -/
theorem filter_eq (h : Feeds productId base ds ss) {ds₁ ds₂ : List Diff} {d : Diff} {n : ℕ}
    (hds : ds = ds₁ ++ d :: ds₂) (htaken : ∀ d' ∈ ds₁, d'.sequence ≤ n) (hn : n < d.sequence) :
    (ds.filter fun d' => d'.sequence ≤ n) = ds₁ ∧
      (ds.filter fun d' => d'.sequence ≤ d.sequence) = ds₁ ++ [d] := by
  have hsplit : ∀ (l r : List Diff) (k : ℕ), (∀ d' ∈ l, d'.sequence ≤ k) →
      (∀ d' ∈ r, k < d'.sequence) → ((l ++ r).filter fun d' => d'.sequence ≤ k) = l := by
    intro l r k hl hr
    rw [List.filter_append, List.filter_eq_self.mpr (by simpa using hl),
      List.filter_eq_nil_iff.mpr (by simpa using hr), List.append_nil]
  have hrising := (List.pairwise_cons.mp h.rising).2
  rw [List.pairwise_map, hds, List.pairwise_append, List.pairwise_cons] at hrising
  obtain ⟨-, ⟨hafter, -⟩, -⟩ := hrising
  constructor
  · rw [hds]
    refine hsplit ds₁ (d :: ds₂) n htaken fun d' hd' => ?_
    rcases List.mem_cons.mp hd' with rfl | hd'
    · exact hn
    · exact hn.trans (hafter d' hd')
  · rw [hds, List.append_cons]
    refine hsplit (ds₁ ++ [d]) ds₂ d.sequence (fun d' hd' => ?_) hafter
    rcases List.mem_append.mp hd' with hd' | hd'
    · exact (htaken d' hd').trans hn.le
    · exact (List.mem_singleton.mp hd' ▸ le_rfl)

end Feeds

/-! ## Books in step with the diffs -/

namespace TrackedBook

variable [A : Arrangement] {t : TrackedBook} {productId : String} {base : Snapshot}
  {ds ds₁ ds₂ : List Diff} {ss : List Snapshot}

/-- A book holds what the diffs up to its sequence make of the first snapshot. -/
structure InStep (base : Snapshot) (ds : List Diff) (t : TrackedBook) : Prop where
  consistent : t.Consistent
  flat : t.orders.flat = (FlatOrders.ofSnapshot base).replay
    (ds.filter fun d => d.sequence ≤ t.levels.lastUpdateId)

/-- The first snapshot is in step: all diffs are later. -/
theorem inStep_ofSnapshot (hf : Feeds productId base ds ss) (ht : ofSnapshot base = .ok t) :
    t.InStep base ds := by
  refine ⟨consistent_ofSnapshot ht, ?_⟩
  have hnone : (ds.filter fun d => d.sequence ≤ t.levels.lastUpdateId) = [] := by
    refine List.filter_eq_nil_iff.mpr fun d hd => ?_
    have hlt := (List.pairwise_cons.mp hf.rising).1 d.sequence (List.mem_map_of_mem hd)
    simpa [lastUpdateId_ofSnapshot ht] using hlt
  rw [hnone, orders_ofSnapshot ht, OrderIndex.flat_ofSnapshot]
  rfl

/-- The sizes of a level of a book in step add up exactly. -/
theorem InStep.sumsExactly (h : t.InStep base ds) (hf : Feeds productId base ds ss) (s : Side)
    (q : ℚ) : Decimal.SumsExactly .zero ((t.orders.side s).levelAt q).values :=
  OrderIndex.sumsExactly_of_bounded h.consistent.wellFormed
    (h.flat ▸ hf.bounded_replay List.filter_sublist) (hf.total_sublist_lt List.filter_sublist) s q

/-- A later diff keeps a book in step, if the book has seen all diffs before. -/
theorem InStep.apply (h : t.InStep base ds) (hf : Feeds productId base ds ss) {d : Diff}
    (hds : ds = ds₁ ++ d :: ds₂) (htaken : ∀ d' ∈ ds₁, d'.sequence ≤ t.levels.lastUpdateId)
    (hlater : t.levels.lastUpdateId < d.sequence) :
    ∃ t', t.apply d = .ok (t', true) ∧ t'.InStep base ds ∧
      t'.levels.lastUpdateId = d.sequence := by
  obtain ⟨hbefore, hupto⟩ := hf.filter_eq hds htaken hlater
  have hflat : t.orders.flat = (FlatOrders.ofSnapshot base).replay ds₁ := hbefore ▸ h.flat
  have hexact := hf.takesExactly h.consistent.wellFormed hflat (hupto ▸ List.filter_sublist)
  obtain ⟨y, rows, hstep, -, hy, -⟩ := OrderIndex.apply_refines h.consistent.wellFormed d hexact
  obtain ⟨t', happly, rfl, hlast, hconsistent⟩ := h.consistent.exists_apply hlater hstep
  refine ⟨t', happly, ⟨hconsistent, ?_⟩, hlast⟩
  rw [hy, hlast, hupto, FlatOrders.replay_concat, hflat]

/-- A snapshot is in step. -/
theorem exists_ofSnapshot (hf : Feeds productId base ds ss) {s : Snapshot} (hs : s ∈ ss) :
    ∃ t, ofSnapshot s = .ok t ∧ t.InStep base ds ∧ t.levels.lastUpdateId = s.sequence := by
  have hflat := hf.ofSnapshot_eq_replay hs
  have hexact := OrderIndex.takesExactly_snapshot
    (hflat ▸ hf.bounded_replay List.filter_sublist) (hf.total_sublist_lt List.filter_sublist)
    OrderIndex.empty
  obtain ⟨x, rows, hload, -⟩ := OrderIndex.load_refines s hexact
  obtain ⟨t, ht⟩ := exists_ofSnapshot_of_load hload
  have hlast := lastUpdateId_ofSnapshot ht
  refine ⟨t, ht, ⟨consistent_ofSnapshot ht, ?_⟩, hlast⟩
  rw [orders_ofSnapshot ht, OrderIndex.flat_ofSnapshot, hlast]
  exact hflat

/-! ## Messages -/

variable {b : Books}

/-- A diff leads the book of its product to the later of both sequences, in step. -/
theorem InStep.receive_diff (h : t.InStep base ds) (hf : Feeds productId base ds ss)
    (ht : b.find? productId = some t) {d : Diff} (hds : ds = ds₁ ++ d :: ds₂)
    (htaken : ∀ d' ∈ ds₁, d'.sequence ≤ t.levels.lastUpdateId) :
    ∃ b' applied t', b.applyDiff d = .ok (b', applied) ∧ b'.find? productId = some t' ∧
      t'.InStep base ds ∧ t'.levels.lastUpdateId = max t.levels.lastUpdateId d.sequence := by
  have hd : d.productId = productId :=
    hf.productId_diff d (hds ▸ List.mem_append_right _ List.mem_cons_self)
  by_cases hstale : d.sequence ≤ t.levels.lastUpdateId
  · refine ⟨b, false, t, ?_, ht, h, (max_eq_left hstale).symm⟩
    simp only [Books.applyDiff, hd, ht, if_pos hstale]
  · obtain ⟨t', happly, hin, hlast⟩ := h.apply hf hds htaken (not_le.mp hstale)
    refine ⟨⟨b.entries.insert productId t'⟩, true, t', ?_, ?_, hin, ?_⟩
    · simp only [Books.applyDiff, hd, ht, if_neg hstale]
      exact bind_eq_ok_iff.mpr ⟨(t', true), happly, rfl⟩
    · rw [Books.find?_insert, if_pos rfl]
    · rw [hlast, max_eq_right (not_le.mp hstale).le]

/-- A snapshot leads the book of its product to the later of both sequences, in step. -/
theorem InStep.receive_snapshot (h : t.InStep base ds) (hf : Feeds productId base ds ss)
    (ht : b.find? productId = some t) {s : Snapshot} (hs : s ∈ ss) :
    ∃ b' applied t', b.applySnapshot s = .ok (b', applied) ∧ b'.find? productId = some t' ∧
      t'.InStep base ds ∧ t'.levels.lastUpdateId = max t.levels.lastUpdateId s.sequence := by
  have hlast : b.lastUpdateId? s.productId = some t.levels.lastUpdateId := by
    rw [Books.lastUpdateId?, hf.productId_snapshot s hs, ht, Option.map_some]
  by_cases hstale : s.sequence ≤ t.levels.lastUpdateId
  · refine ⟨b, false, t, ?_, ht, h, (max_eq_left hstale).symm⟩
    simp [Books.applySnapshot, hlast, hstale]
  · obtain ⟨t', hload, hin, hlast'⟩ := exists_ofSnapshot hf hs
    refine ⟨⟨b.entries.insert s.productId t'⟩, true, t', ?_, ?_, hin, ?_⟩
    · rw [Books.applySnapshot, hlast, if_neg (by simpa using hstale)]
      exact bind_eq_ok_iff.mpr ⟨t', hload, rfl⟩
    · rw [Books.find?_insert, if_pos (hf.productId_snapshot s hs)]
    · rw [hlast', max_eq_right (not_le.mp hstale).le]

end TrackedBook

/-! ## Interleavings -/

namespace Consumer

variable {productId : String} {base : Snapshot} {ds ds₁ ds₂ : List Diff} {ss ss' : List Snapshot}
  {ms : List Delivery} {c : Consumer} {t : TrackedBook}

/-- The latest of some sequences may be found by comparing two of them first. -/
theorem max?_eq_some_of_perm {a n m : ℕ} {l l' : List ℕ} (hperm : l'.Perm (n :: l))
    (h : (max a n :: l).max? = some m) : (a :: l').max? = some m := by
  rw [List.max?_eq_some_iff] at h ⊢
  simp only [List.mem_cons, hperm.mem_iff] at h ⊢
  obtain ⟨hmem, hle⟩ := h
  refine ⟨?_, fun k hk => ?_⟩
  · rcases hmem with rfl | hmem
    · rcases max_choice a n with h | h <;> simp [h]
    · exact .inr (.inr hmem)
  · have hmax := max_le_iff.mp (hle _ (.inl rfl))
    rcases hk with rfl | rfl | hk
    · exact hmax.1
    · exact hmax.2
    · exact hle k (.inr hk)

section Runs

variable [A : Arrangement]

theorem take_diff {d : Diff} {b : Books} {applied : Bool} (hcrash : c.crash = none)
    (hopen : c.diffsOpen) (h : c.books.applyDiff d = .ok (b, applied)) :
    c.take (.diff d) = { c with books := b } := by
  simp [take, settle, hcrash, hopen, h]

theorem take_snapshot {s : Snapshot} {b : Books} {applied : Bool} (hcrash : c.crash = none)
    (hopen : c.snapshotsOpen) (h : c.books.applySnapshot s = .ok (b, applied)) :
    c.take (.snapshot s) = { c with books := b } := by
  simp [take, settle, hcrash, hopen, h]

/-- The consumer has not crashed, and it holds a book of a product. -/
structure Holds (c : Consumer) (productId : String) (t : TrackedBook) : Prop where
  crash : c.crash = none
  find : c.books.find? productId = some t

/-- From any point on, the messages that are left keep the book in step and lead it to the latest
sequence among them. The induction is on the interleaving; `ds₁` are the diffs that were taken, all
of them part of the book by now. -/
theorem takeAll_inStep (hf : Feeds productId base ds ss) (hms : Interleaves ds₂ ss' ms)
    (hds : ds = ds₁ ++ ds₂) (hss : ∀ s ∈ ss', s ∈ ss) (hdiffs : ds₂ ≠ [] → c.diffsOpen)
    (hsnapshots : ss' ≠ [] → c.snapshotsOpen) (hc : c.Holds productId t) (hin : t.InStep base ds)
    (htaken : ∀ d ∈ ds₁, d.sequence ≤ t.levels.lastUpdateId) :
    ∃ t', (c.takeAll ms).Holds productId t' ∧ t'.InStep base ds ∧
      (t.levels.lastUpdateId :: (ds₂.map (fun d => d.sequence) ++ ss'.map Snapshot.sequence)).max? =
        some t'.levels.lastUpdateId := by
  induction hms generalizing c t ds₁ with
  | nil => exact ⟨t, hc, hin, rfl⟩
  | @diff d ds₂ ss' ms _ ih =>
    obtain ⟨b, applied, t₁, happly, ht₁, hin₁, hlast⟩ := hin.receive_diff hf hc.find hds htaken
    have htaken₁ : ∀ d' ∈ ds₁ ++ [d], d'.sequence ≤ t₁.levels.lastUpdateId := by
      intro d' hd'
      rw [hlast]
      rcases List.mem_append.mp hd' with hd' | hd'
      · exact le_max_of_le_left (htaken d' hd')
      · exact List.mem_singleton.mp hd' ▸ le_max_right _ _
    have hopen := hdiffs (List.cons_ne_nil _ _)
    obtain ⟨t', hholds, hin', hmax⟩ := ih (c := { c with books := b })
      (by rw [hds, List.append_cons]) hss (fun _ => hopen) hsnapshots ⟨hc.crash, ht₁⟩ hin₁ htaken₁
    rw [takeAll, List.foldl_cons, take_diff hc.crash hopen happly]
    rw [hlast] at hmax
    exact ⟨t', hholds, hin', max?_eq_some_of_perm (List.Perm.refl _) hmax⟩
  | @snapshot s ds₂ ss' ms _ ih =>
    obtain ⟨b, applied, t₁, happly, ht₁, hin₁, hlast⟩ :=
      hin.receive_snapshot hf hc.find (hss s List.mem_cons_self)
    have htaken₁ : ∀ d' ∈ ds₁, d'.sequence ≤ t₁.levels.lastUpdateId := by
      intro d' hd'
      rw [hlast]
      exact le_max_of_le_left (htaken d' hd')
    have hopen := hsnapshots (List.cons_ne_nil _ _)
    obtain ⟨t', hholds, hin', hmax⟩ := ih (c := { c with books := b }) hds
      (fun s' hs' => hss s' (List.mem_cons_of_mem _ hs')) hdiffs (fun _ => hopen) ⟨hc.crash, ht₁⟩
      hin₁ htaken₁
    rw [takeAll, List.foldl_cons, take_snapshot hc.crash hopen happly]
    rw [hlast] at hmax
    exact ⟨t', hholds, hin', max?_eq_some_of_perm List.perm_middle hmax⟩
  | diffsClosed _ ih =>
    have hclose : c.take .diffsClosed = { c with diffsOpen := false } := by simp [take, hc.crash]
    rw [takeAll, List.foldl_cons, hclose]
    exact ih hds hss (fun h => absurd rfl h) hsnapshots ⟨hc.crash, hc.find⟩ hin htaken
  | snapshotsClosed _ ih =>
    have hclose : c.take .snapshotsClosed = { c with snapshotsOpen := false } := by
      simp [take, hc.crash]
    rw [takeAll, List.foldl_cons, hclose]
    exact ih hds hss hdiffs (fun h => absurd rfl h) ⟨hc.crash, hc.find⟩ hin htaken

/-- Every interleaving of all diffs leads the book to where they lead its first snapshot, and to the
latest sequence, however the maps list the orders on the way. -/
theorem exists_holds_takeAll {books : Books} (hf : Feeds productId base ds ss)
    (hbase : TrackedBook.ofSnapshot base = .ok t) (hbooks : books.find? productId = some t)
    (hss : ∀ s ∈ ss', s ∈ ss) (hms : Interleaves ds ss' ms) (τ : Arrangement) :
    ∃ t', ((new books).takeAll (A := τ) ms).Holds productId t' ∧ t'.InStep base ds ∧
      t'.orders.flat = (FlatOrders.ofSnapshot base).replay ds ∧
      (base.sequence :: (ds.map (fun d => d.sequence) ++ ss'.map Snapshot.sequence)).max? =
        some t'.levels.lastUpdateId := by
  have hin := TrackedBook.inStep_ofSnapshot (A := A) hf hbase
  obtain ⟨t', hholds, hin', hmax⟩ := takeAll_inStep (A := τ) (c := new books)
    (hf.of_arrangement (A := A) τ) hms (List.nil_append ds).symm hss (fun _ => rfl) (fun _ => rfl)
    ⟨rfl, hbooks⟩ hin nofun
  rw [TrackedBook.lastUpdateId_ofSnapshot (A := A) hbase] at hmax
  refine ⟨t', hholds, hin', ?_, hmax⟩
  have hle := (List.max?_eq_some_iff.mp hmax).2
  have hall : (ds.filter fun d => d.sequence ≤ t'.levels.lastUpdateId) = ds := by
    refine List.filter_eq_self.mpr fun d hd => decide_eq_true (hle d.sequence ?_)
    exact List.mem_cons_of_mem _ (List.mem_append_left _ (List.mem_map_of_mem hd))
  rw [hin'.flat, hall]

/-- **The order in which the feeds are taken does not matter**, and neither does how the maps list
the orders on the way. Whatever interleaving of the diffs, in their order, with the snapshots, in
any order, the consumer takes, it does not crash, and the product has, by value, the orders that the
diffs lead the first snapshot to and the levels that the diffs alone lead the consumer to; its book
ends at the latest of all sequences. -/
theorem takeAll_confluent {books : Books} (hf : Feeds productId base ds ss)
    (hbase : TrackedBook.ofSnapshot base = .ok t) (hbooks : books.find? productId = some t)
    (hss : ss'.Perm ss) (hms : Interleaves ds ss' ms) (σ τ : Arrangement) :
    ∃ t₁ t₂ x, ((new books).takeAll (A := σ) ms).Holds productId t₁ ∧
      ((new books).takeAll (A := τ) (ds.map .diff)).Holds productId t₂ ∧
      (OrderIndex.ofSnapshot (A := A) base).replay (A := A) ds = .ok x ∧
      t₁.orders.flat = x.flat ∧ t₂.orders.flat = x.flat ∧
      (∀ s, (t₁.levels.side s).values = (t₂.levels.side s).values) ∧
      (base.sequence :: (ds.map (fun d => d.sequence) ++ ss.map Snapshot.sequence)).max? =
        some t₁.levels.lastUpdateId := by
  obtain ⟨x, hx, -, hreplay⟩ := hf.exists_replay (A := A) (List.Sublist.refl ds) A
  obtain ⟨t₁, hholds₁, hin₁, hflat₁, hmax₁⟩ := exists_holds_takeAll (A := A) hf hbase hbooks
    (fun s hs => hss.mem_iff.mp hs) hms σ
  obtain ⟨t₂, hholds₂, hin₂, hflat₂, -⟩ := exists_holds_takeAll (A := A) hf hbase hbooks
    (List.forall_mem_nil _) (Interleaves.of_diffs ds) τ
  refine ⟨t₁, t₂, x, hholds₁, hholds₂, hx, ?_, ?_, fun s => ?_, ?_⟩
  · rw [hflat₁, hreplay]
  · rw [hflat₂, hreplay]
  · exact hin₁.consistent.values_levels_eq hin₂.consistent (hflat₁.trans hflat₂.symm) s
      (hin₁.sumsExactly (A := A) hf s) (hin₂.sumsExactly (A := A) hf s)
  · rw [List.max?_eq_some_iff] at hmax₁ ⊢
    simpa only [List.mem_cons, List.mem_append, (hss.map Snapshot.sequence).mem_iff] using hmax₁

end Runs

/-- The sample diffs with the listing after the first of them, which makes two of them stale. -/
theorem takeAll_confluent_samples :
    ∃ (books : Books) (t : TrackedBook) (ms : List Delivery),
      Feeds "BTC-USD" Update.sampleSnapshot Update.sampleDiffs [Update.sampleListing] ∧
      TrackedBook.ofSnapshot Update.sampleSnapshot = .ok t ∧
      books.find? "BTC-USD" = some t ∧ Interleaves Update.sampleDiffs [Update.sampleListing] ms ∧
      ∃ t₁ t₂ x, ((new books).takeAll ms).Holds "BTC-USD" t₁ ∧
        ((new books).takeAll (A := .reversed) (Update.sampleDiffs.map .diff)).Holds "BTC-USD" t₂ ∧
        (OrderIndex.ofSnapshot Update.sampleSnapshot).replay Update.sampleDiffs = .ok x ∧
        t₁.orders.flat = x.flat ∧ t₂.orders.flat = x.flat ∧
        (∀ s, (t₁.levels.side s).values = (t₂.levels.side s).values) ∧
        (Update.sampleSnapshot.sequence :: (Update.sampleDiffs.map (fun d => d.sequence) ++
          [Update.sampleListing].map Snapshot.sequence)).max? = some t₁.levels.lastUpdateId := by
  have hfound : (TrackedBook.ofSnapshot Update.sampleSnapshot).toOption.isSome := by
    decide +kernel
  obtain ⟨t, ht⟩ := Option.isSome_iff_exists.mp hfound
  replace ht := mem_toOption_iff.mp ht
  have hbooks : (Books.ofEntries [("BTC-USD", t)]).find? "BTC-USD" = some t := rfl
  have hms : Interleaves Update.sampleDiffs [Update.sampleListing] _ :=
    .diff (.snapshot (.diff (.diff (.snapshotsClosed (.diff (.diff (.diffsClosed .nil)))))))
  exact ⟨_, t, _, feeds_samples, ht, hbooks, hms,
    takeAll_confluent feeds_samples ht hbooks (List.Perm.refl _) hms .arrival .reversed⟩

end Consumer

end MarketFeed
