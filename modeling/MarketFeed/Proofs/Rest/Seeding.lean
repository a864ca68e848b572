import MarketFeed.Proofs.Book.FreeSums
import MarketFeed.Proofs.Book.Reachable
import MarketFeed.Proofs.Rest.Publishing
import MarketFeed.Rest.Startup

/-!
# Seeding the books

The books at the start are put into a table response by response; those of a refresh are snapshots
that are sent and then applied one after another. Both come down to the snapshots that the
inquiries give, so a product has the same book on either way, but for the time of the response and,
since two maps may list the orders at a price in two ways, up to the spelling of amounts, where no
sum depends on the order of adding. Neither way is guarded against orders at one price whose sizes
cannot be added up: there both of them break off.

## Main definitions

* `TrackedBook.ofSnapshots`: the books of some snapshots
* `Books.AlikeUntimed`: books that differ in times, in listings and in spellings only
* `Inquiry.AddsUp`: the sizes of a response can be added up
* `Inquiry.SumsFreely`: in any order, or in none
* `Inquiry.books`: the books that some inquiries give
* `Inquiry.latest?`: the last snapshot of a product
* `Client.Seeds`: the laws of the books at the start

## Main results

* `Client.run_addTrackedBooks_append`: the table after the inquiries so far
* `Books.run_snapshots`: snapshots of different products are all applied
* `Client.seeds`: the laws hold for every client
* `Client.trackedBooks_crowded`: a response that cannot be added up breaks off
-/

namespace MarketFeed

open Json Text

/-! ## The books of snapshots -/

namespace TrackedBook

variable {s : Snapshot} {ss : List Snapshot} {t : TrackedBook} {o : Overflow}
  {es : List (String × TrackedBook)}

section OneArrangement

variable [A : Arrangement]

/-- the books of some snapshots, each under its product -/
def ofSnapshots : List Snapshot → Except Overflow (List (String × TrackedBook))
  | [] => .ok []
  | s :: ss =>
    match ofSnapshot s with
    | .error o => .error o
    | .ok t => (ofSnapshots ss).map fun es => (s.productId, t) :: es

theorem ofSnapshots_cons_of_ok (h : ofSnapshot s = .ok t) (ss : List Snapshot) :
    ofSnapshots (s :: ss) = (ofSnapshots ss).map fun es => (s.productId, t) :: es := by
  rw [ofSnapshots, h]

theorem ofSnapshots_cons_of_error (h : ofSnapshot s = .error o) (ss : List Snapshot) :
    ofSnapshots (s :: ss) = .error o := by
  rw [ofSnapshots, h]

theorem ofSnapshots_cons_eq_ok_iff :
    ofSnapshots (s :: ss) = .ok es ↔
      ∃ t rest, ofSnapshot s = .ok t ∧ ofSnapshots ss = .ok rest ∧
        es = (s.productId, t) :: rest := by
  cases h : ofSnapshot s with
  | error o => simp [ofSnapshots_cons_of_error h]
  | ok t =>
    rw [ofSnapshots_cons_of_ok h, map_eq_ok_iff]
    simp [eq_comm]

theorem exists_ofSnapshots (h : ∀ s ∈ ss, ∃ t, ofSnapshot s = .ok t) :
    ∃ es, ofSnapshots ss = .ok es := by
  induction ss with
  | nil => exact ⟨[], rfl⟩
  | cons s ss ih =>
    obtain ⟨⟨t, ht⟩, hrest⟩ := List.forall_mem_cons.mp h
    obtain ⟨es, hes⟩ := ih hrest
    exact ⟨_, ofSnapshots_cons_eq_ok_iff.mpr ⟨t, es, ht, hes, rfl⟩⟩

theorem map_of_ofSnapshots (h : ofSnapshots ss = .ok es) :
    es.map (fun e => (e.1, Except.ok e.2)) = ss.map fun s => (s.productId, ofSnapshot s) := by
  induction ss generalizing es with
  | nil =>
    cases h
    rfl
  | cons s ss ih =>
    obtain ⟨t, rest, ht, hrest, rfl⟩ := ofSnapshots_cons_eq_ok_iff.mp h
    rw [List.map_cons, List.map_cons, ih hrest, ht]

/-- The books of a product are those of its snapshots. -/
theorem getLast?_of_ofSnapshots (h : ofSnapshots ss = .ok es) (id : String) :
    ((es.filter (·.1 = id)).getLast?.map Prod.snd).map Except.ok =
      (ss.filter (·.productId = id)).getLast?.map ofSnapshot := by
  have hmap := congrArg (fun l => (l.filter (·.1 = id)).getLast?.map Prod.snd)
    (map_of_ofSnapshots h)
  simpa only [List.filter_map, List.getLast?_map, Option.map_map, Function.comp_def] using hmap

end OneArrangement

/-- **Books of snapshots that differ in their times only**, under two arrangements, or the first
overflow among them. -/
theorem sameOutcome_ofSnapshots {σ τ : Arrangement} {ss' : List Snapshot}
    (h : ss.map Snapshot.untimed = ss'.map Snapshot.untimed) (hfree : ∀ s ∈ ss, s.SumsFreely) :
    SameOutcome (List.Forall₂ fun e e' => e.1 = e'.1 ∧ e.2.untimed.Alike e'.2.untimed)
      (ofSnapshots (A := σ) ss) (ofSnapshots (A := τ) ss') := by
  induction ss generalizing ss' with
  | nil =>
    obtain rfl : ss' = [] := by simpa using h
    exact .ok .nil
  | cons s ss ih =>
    obtain ⟨s', ss', rfl⟩ : ∃ s' rest, ss' = s' :: rest :=
      List.exists_cons_of_ne_nil fun hnil => by simp [hnil] at h
    obtain ⟨huntimed, h⟩ := List.cons.inj h
    obtain ⟨hs, hrest⟩ := List.forall_mem_cons.mp hfree
    have hfirst := sameOutcome_ofSnapshot (σ := σ) (τ := τ) huntimed hs
    have hid := (Snapshot.untimed_eq_iff.mp huntimed).1
    generalize ht : ofSnapshot (A := σ) s = t at hfirst
    generalize ht' : ofSnapshot (A := τ) s' = t' at hfirst
    cases hfirst with
    | error o =>
      rw [ofSnapshots_cons_of_error (A := σ) ht, ofSnapshots_cons_of_error (A := τ) ht']
      exact .error o
    | ok halike =>
      rw [ofSnapshots_cons_of_ok (A := σ) ht, ofSnapshots_cons_of_ok (A := τ) ht']
      exact (ih h hrest).map fun _ _ hes => .cons ⟨hid, halike.2.2⟩ hes

end TrackedBook

/-- The books differ in their times, in the listing of orders and in the spelling of levels only. -/
def Books.AlikeUntimed (b c : Books) : Prop :=
  ∀ id, Option.Rel (fun t t' => t.untimed.Alike t'.untimed) (b.find? id) (c.find? id)

/-! ## Snapshots that are applied -/

namespace Books

variable [A : Arrangement]

theorem applySnapshot_of_absent {b : Books} {s : Snapshot} (h : b.find? s.productId = none) :
    b.applySnapshot s =
      (TrackedBook.ofSnapshot s).map fun t => (⟨b.entries.insert s.productId t⟩, true) := by
  have hnew : b.lastUpdateId? s.productId = none := by rw [lastUpdateId?, h, Option.map_none]
  rw [applySnapshot, hnew]
  rfl

/-- **Snapshots of different products are all applied** to books without these products. -/
theorem run_snapshots {b : Books} {ss : List Snapshot}
    (hnodup : (ss.map Snapshot.productId).Nodup)
    (habsent : ∀ s ∈ ss, b.find? s.productId = none) :
    b.run (ss.map .snapshot) = (TrackedBook.ofSnapshots ss).map fun es =>
      (⟨b.entries.insertAll es⟩, ss.map .snapshot) := by
  induction ss generalizing b with
  | nil => rfl
  | cons s ss ih =>
    obtain ⟨hs, hrest⟩ := List.forall_mem_cons.mp habsent
    obtain ⟨hnew, hnodup⟩ := List.nodup_cons.mp hnodup
    rw [List.map_cons, run, receive, applySnapshot_of_absent hs]
    cases h : TrackedBook.ofSnapshot s with
    | error o =>
      rw [TrackedBook.ofSnapshots_cons_of_error h]
      rfl
    | ok t =>
      have hothers : ∀ s' ∈ ss, find? ⟨b.entries.insert s.productId t⟩ s'.productId = none := by
        intro s' hs'
        have hne : s.productId ≠ s'.productId := fun heq =>
          hnew (heq ▸ List.mem_map_of_mem hs')
        rw [find?_insert, if_neg hne]
        exact hrest s' hs'
      rw [TrackedBook.ofSnapshots_cons_of_ok h]
      dsimp only [Except.map, bind, Except.bind]
      rw [ih hnodup hothers]
      cases TrackedBook.ofSnapshots ss <;> rfl

theorem fst_run_snapshots {ss : List Snapshot} (hnodup : (ss.map Snapshot.productId).Nodup) :
    (empty.run (ss.map .snapshot)).map Prod.fst =
      (TrackedBook.ofSnapshots ss).map ofEntries := by
  rw [run_snapshots hnodup fun _ _ => rfl]
  cases TrackedBook.ofSnapshots ss <;> rfl

end Books

/-! ## What inquiries give -/

namespace Inquiry

variable {q : Inquiry} {qs qs' : List Inquiry} {es : List (String × TrackedBook)}

/-- No sum of the sizes of the response at a price depends on the order of adding. -/
def SumsFreely (q : Inquiry) : Prop := ∀ s, q.snapshot? = some s → s.SumsFreely

/-- the product, with what came of the request for its book -/
def outcome (q : Inquiry) : String × Except Fault (ℕ × List Glyph) := (q.id, q.attempt.outcome)

/-- the last snapshot of a product -/
def latest? (id : String) (qs : List Inquiry) : Option Snapshot :=
  ((qs.filter (·.id = id)).filterMap snapshot?).getLast?

theorem filter_filterMap_snapshot? (id : String) (qs : List Inquiry) :
    (qs.filterMap snapshot?).filter (·.productId = id) =
      (qs.filter (·.id = id)).filterMap snapshot? := by
  rw [List.filter_filterMap, List.filterMap_filter]
  refine List.filterMap_congr fun q _ => ?_
  cases h : q.snapshot? with
  | none => simp
  | some s => simp [productId_of_snapshot? h, Option.filter]

theorem isSome_latest?_iff {id : String} :
    (latest? id qs).isSome ↔ ∃ q ∈ qs, q.id = id ∧ q.snapshot?.isSome := by
  rw [latest?, List.getLast?_isSome, Ne, List.filterMap_eq_nil_iff]
  simp [Option.isSome_iff_ne_none]

theorem map_productId_sublist (qs : List Inquiry) :
    ((qs.filterMap snapshot?).map Snapshot.productId).Sublist (qs.map id) := by
  induction qs with
  | nil => exact .slnil
  | cons q qs ih =>
    cases h : q.snapshot? with
    | none =>
      rw [List.filterMap_cons_none h]
      exact ih.cons _
    | some s =>
      rw [List.filterMap_cons_some h, List.map_cons, List.map_cons, productId_of_snapshot? h]
      exact ih.cons_cons _

section OneArrangement

variable [A : Arrangement]

/-- The sizes of the response can be added up at each price, if it has a book. -/
def AddsUp (q : Inquiry) : Prop :=
  ∀ s, q.snapshot? = some s → ∃ t, TrackedBook.ofSnapshot s = .ok t

theorem addsUp_iff :
    q.AddsUp ↔ q.snapshot?.all (fun s => (TrackedBook.ofSnapshot s).isOk) = true := by
  unfold AddsUp
  rw [Option.all_eq_true]
  refine forall_congr' fun s => forall_congr' fun _ => ?_
  cases TrackedBook.ofSnapshot s <;> simp [Except.isOk, Except.toBool]

instance : DecidablePred AddsUp := fun _ => decidable_of_iff _ addsUp_iff.symm

/-- the books that some inquiries give, each under its product -/
def books (qs : List Inquiry) : Except Overflow (List (String × TrackedBook)) :=
  TrackedBook.ofSnapshots (qs.filterMap snapshot?)

theorem books_cons_of_none (h : q.snapshot? = none) (qs : List Inquiry) :
    books (q :: qs) = books qs := by
  rw [books, List.filterMap_cons_none h, books]

theorem books_cons_of_ok {s : Snapshot} {t : TrackedBook} (h : q.snapshot? = some s)
    (ht : TrackedBook.ofSnapshot s = .ok t) (qs : List Inquiry) :
    books (q :: qs) = (books qs).map fun es => (q.id, t) :: es := by
  rw [books, List.filterMap_cons_some h, TrackedBook.ofSnapshots_cons_of_ok ht,
    productId_of_snapshot? h, books]

theorem books_cons_of_error {s : Snapshot} {o : Overflow} (h : q.snapshot? = some s)
    (ho : TrackedBook.ofSnapshot s = .error o) (qs : List Inquiry) :
    books (q :: qs) = .error o := by
  rw [books, List.filterMap_cons_some h, TrackedBook.ofSnapshots_cons_of_error ho]

theorem exists_books (h : ∀ q ∈ qs, q.AddsUp) : ∃ es, books qs = .ok es := by
  refine TrackedBook.exists_ofSnapshots fun s hs => ?_
  obtain ⟨q, hq, hsome⟩ := List.mem_filterMap.mp hs
  exact h q hq s hsome

theorem exists_overflow (h : ¬ q.AddsUp) :
    ∃ s o, q.snapshot? = some s ∧ TrackedBook.ofSnapshot s = .error o := by
  obtain ⟨s, hs⟩ := not_forall.mp h
  obtain ⟨hs, ho⟩ := Classical.not_imp.mp hs
  cases hbook : TrackedBook.ofSnapshot s with
  | ok t => exact absurd ⟨t, hbook⟩ ho
  | error o => exact ⟨s, o, hs, hbook⟩

/-- The book of a product is that of its last snapshot. -/
theorem find?_of_books (h : books qs = .ok es) (id : String) :
    ((Books.ofEntries es).entries.find? id).map Except.ok =
      (latest? id qs).map TrackedBook.ofSnapshot := by
  have hlast := TrackedBook.getLast?_of_ofSnapshots h id
  rw [filter_filterMap_snapshot?] at hlast
  have hfind : (Books.ofEntries es).entries.find? id =
      (es.filter (·.1 = id)).getLast?.map Prod.snd :=
    (Table.find?_insertAll .empty es id).trans Option.or_none
  rw [hfind, hlast, latest?]

end OneArrangement

/-- Inquiries with the same outcomes give the same snapshots, but for the times. -/
theorem map_untimed_of_outcome (h : qs.map outcome = qs'.map outcome) :
    (qs.filterMap snapshot?).map Snapshot.untimed =
      (qs'.filterMap snapshot?).map Snapshot.untimed := by
  have hread : ∀ qs : List Inquiry, (qs.filterMap snapshot?).map Snapshot.untimed =
      (qs.map outcome).filterMap fun o =>
        (o.2.bind (Client.accept Listing.decoder
          s!"Coinbase Pro market snapshot for {o.1}")).toOption.map
            fun l => l.stamp o.1 default := by
    intro qs
    rw [List.map_filterMap, List.filterMap_map]
    refine List.filterMap_congr fun q _ => ?_
    rw [snapshot?, Option.map_map]
    rfl
  rw [hread, hread, h]

theorem untimed_latest?_of_outcome {id : String}
    (h : (qs.filter (·.id = id)).map outcome = (qs'.filter (·.id = id)).map outcome) :
    (latest? id qs).map Snapshot.untimed = (latest? id qs').map Snapshot.untimed := by
  rw [latest?, latest?, ← List.getLast?_map, ← List.getLast?_map, map_untimed_of_outcome h]

/-- Under two arrangements, inquiries for a product with the same outcomes give the same book. -/
theorem rel_find?_of_books {σ τ : Arrangement} {es' : List (String × TrackedBook)} {id : String}
    (h : books (A := σ) qs = .ok es) (h' : books (A := τ) qs' = .ok es')
    (houtcome : (qs.filter (·.id = id)).map outcome = (qs'.filter (·.id = id)).map outcome)
    (hfree : ∀ s ∈ latest? id qs, s.SumsFreely) :
    Option.Rel (fun t t' => t.untimed.Alike t'.untimed) ((Books.ofEntries es).entries.find? id)
      ((Books.ofEntries es').entries.find? id) := by
  have hfind := find?_of_books (A := σ) h id
  have hfind' := find?_of_books (A := τ) h' id
  have hlatest := untimed_latest?_of_outcome houtcome
  generalize (Books.ofEntries es).entries.find? id = t at hfind ⊢
  generalize (Books.ofEntries es').entries.find? id = t' at hfind' ⊢
  generalize latest? id qs = s at hfind hfree hlatest
  generalize latest? id qs' = s' at hfind' hlatest
  cases s with
  | none =>
    obtain rfl : s' = none := by simpa using hlatest.symm
    obtain rfl : t = none := by simpa using hfind
    obtain rfl : t' = none := by simpa using hfind'
    exact .none
  | some s =>
    obtain ⟨s', rfl, huntimed⟩ := Option.map_eq_some_iff.mp hlatest.symm
    obtain ⟨t, rfl, ht⟩ := Option.map_eq_some_iff.mp hfind
    obtain ⟨t', rfl, ht'⟩ := Option.map_eq_some_iff.mp hfind'
    have hsame := TrackedBook.sameOutcome_ofSnapshot (σ := σ) (τ := τ) huntimed.symm (hfree s rfl)
    rw [← ht, ← ht'] at hsame
    cases hsame with
    | ok halike => exact .some halike.2.2

end Inquiry

/-! ## The table -/

/-- What an answer of the exchange leads to, where nothing but an overflow fails. -/
theorem run_bind_lift {α β : Type} {x : StateM Exchange α} {a : α} {e e' : Exchange}
    {g : α → ExceptT Overflow (StateM Exchange) β} (h : x.run e = (a, e')) :
    ((x : ExceptT Overflow (StateM Exchange) α) >>= g).run.run e = (g a).run.run e' := by
  have hlift : (x : ExceptT Overflow (StateM Exchange) α).run.run e =
      (.ok (x.run e).1, (x.run e).2) := rfl
  rw [ExceptT.run_bind, StateT.run_bind, hlift, h]
  rfl

namespace Client

variable [A : Arrangement] {c : Client} {e : Exchange} {id : String} {ids before : List String}
  {s : Snapshot} {o : Overflow} {es : List (String × TrackedBook)}

/-- A product without a snapshot is left out. -/
theorem run_addTrackedBooks_of_none (h : (c.inquiry e id).snapshot? = none)
    (books : Table TrackedBook) (ids : List String) :
    (c.addTrackedBooks books (id :: ids)).run.run e =
      (c.addTrackedBooks books ids).run.run (c.asked e id) := by
  obtain ⟨f, hrun⟩ := run_snapshot_of_none h
  exact run_bind_lift hrun

/-- A product with a snapshot has the book of that snapshot. -/
theorem run_addTrackedBooks_of_some (h : (c.inquiry e id).snapshot? = some s)
    (books : Table TrackedBook) (ids : List String) :
    (c.addTrackedBooks books (id :: ids)).run.run e =
      match TrackedBook.ofSnapshot s with
      | .error o => (.error o, c.asked e id)
      | .ok t => (c.addTrackedBooks (books.insert id t) ids).run.run (c.asked e id) := by
  refine (run_bind_lift (run_snapshot_of_some h)).trans ?_
  dsimp only
  cases TrackedBook.ofSnapshot s <;> rfl

/-- **The table after the inquiries so far** has what these set its keys to. -/
theorem run_addTrackedBooks_append (h : Inquiry.books (c.inquiries e before) = .ok es)
    (books : Table TrackedBook) (ids : List String) :
    (c.addTrackedBooks books (before ++ ids)).run.run e =
      (c.addTrackedBooks (books.insertAll es) ids).run.run (c.askedAll e before) := by
  induction before generalizing e books es with
  | nil =>
    cases h
    rfl
  | cons id before ih =>
    rw [inquiries] at h
    rw [List.cons_append, askedAll]
    cases hs : (c.inquiry e id).snapshot? with
    | none =>
      rw [Inquiry.books_cons_of_none hs] at h
      rw [run_addTrackedBooks_of_none hs, ih h]
    | some s =>
      cases ht : TrackedBook.ofSnapshot s with
      | error o =>
        rw [Inquiry.books_cons_of_error hs ht] at h
        cases h
      | ok t =>
        rw [Inquiry.books_cons_of_ok hs ht, map_eq_ok_iff] at h
        obtain ⟨rest, hrest, rfl⟩ := h
        rw [run_addTrackedBooks_of_some hs, ht]
        exact ih hrest (books.insert id t)

theorem run_trackedBooks_of_ok (h : Inquiry.books (c.inquiries e ids) = .ok es) :
    (c.trackedBooks ids).run.run e = (.ok (Books.ofEntries es).entries, c.askedAll e ids) := by
  have hrun := run_addTrackedBooks_append h .empty []
  rw [List.append_nil] at hrun
  exact hrun

theorem run_trackedBooks_of_error (h : Inquiry.books (c.inquiries e before) = .ok es)
    (hs : (c.inquiry (c.askedAll e before) id).snapshot? = some s)
    (ho : TrackedBook.ofSnapshot s = .error o) (after : List String) :
    (c.trackedBooks (before ++ id :: after)).run.run e =
      (.error o, c.askedAll e (before ++ [id])) := by
  rw [trackedBooks, run_addTrackedBooks_append h, run_addTrackedBooks_of_some hs, ho,
    askedAll_append]
  rfl

/-- The table is what the inquiries give, or breaks off where these do. -/
theorem fst_run_addTrackedBooks (c : Client) (books : Table TrackedBook) (ids : List String)
    (e : Exchange) :
    ((c.addTrackedBooks books ids).run.run e).1 =
      (Inquiry.books (c.inquiries e ids)).map books.insertAll := by
  induction ids generalizing e books with
  | nil => rfl
  | cons id ids ih =>
    rw [inquiries]
    cases hs : (c.inquiry e id).snapshot? with
    | none => rw [run_addTrackedBooks_of_none hs, Inquiry.books_cons_of_none hs, ih]
    | some s =>
      rw [run_addTrackedBooks_of_some hs]
      cases ht : TrackedBook.ofSnapshot s with
      | error o => rw [Inquiry.books_cons_of_error hs ht, Except.map]
      | ok t =>
        dsimp only
        rw [Inquiry.books_cons_of_ok hs ht, ih]
        cases Inquiry.books (c.inquiries (c.asked e id) ids) <;> rfl

theorem fst_run_trackedBooks (c : Client) (ids : List String) (e : Exchange) :
    ((c.trackedBooks ids).run.run e).1.map Books.mk =
      (Inquiry.books (c.inquiries e ids)).map Books.ofEntries := by
  rw [trackedBooks, fst_run_addTrackedBooks]
  cases Inquiry.books (c.inquiries e ids) <;> rfl

theorem exists_of_run_trackedBooks {e' : Exchange} {books : Table TrackedBook}
    (h : (c.trackedBooks ids).run.run e = (.ok books, e')) :
    ∃ es, Inquiry.books (c.inquiries e ids) = .ok es ∧ books = (Books.ofEntries es).entries := by
  have hfst := c.fst_run_trackedBooks ids e
  rw [h] at hfst
  cases hes : Inquiry.books (c.inquiries e ids) with
  | error o =>
    rw [hes] at hfst
    cases hfst
  | ok es =>
    rw [hes] at hfst
    exact ⟨es, rfl, congrArg Books.entries (Except.ok.inj hfst)⟩

/-- Unless all responses can be added up, there is a first one that cannot. -/
theorem exists_first_overflow (h : ¬ ∀ q ∈ c.inquiries e ids, q.AddsUp) :
    ∃ before id after, ids = before ++ id :: after ∧ (∀ q ∈ c.inquiries e before, q.AddsUp) ∧
      ¬ (c.inquiry (c.askedAll e before) id).AddsUp := by
  induction ids generalizing e with
  | nil => exact absurd (List.forall_mem_nil _) h
  | cons id ids ih =>
    by_cases hid : (c.inquiry e id).AddsUp
    · have hrest : ¬ ∀ q ∈ c.inquiries (c.asked e id) ids, q.AddsUp := fun hall =>
        h (List.forall_mem_cons.mpr ⟨hid, hall⟩)
      obtain ⟨before, id', after, rfl, hbefore, hid'⟩ := ih hrest
      exact ⟨id :: before, id', after, rfl, List.forall_mem_cons.mpr ⟨hid, hbefore⟩, hid'⟩
    · exact ⟨[], id, ids, rfl, List.forall_mem_nil _, hid⟩

end Client

/-- The laws of the books at the start of a client. -/
structure Client.Seeds (c : Client) : Prop extends c.Inquires where
  /-- As long as every response can be added up, all inquiries are made. The products with a
  snapshot have the book of the last one, whatever comes of the others. -/
  built : ∀ [Arrangement] ids e, (∀ q ∈ c.inquiries e ids, q.AddsUp) →
    ∃ t, (c.trackedBooks ids).run.run e = (.ok t, c.askedAll e ids) ∧ t.Distinct ∧
      ∀ id, (id ∈ t.keys ↔ ∃ q ∈ c.inquiries e ids, q.id = id ∧ q.snapshot?.isSome) ∧
        (t.find? id).map Except.ok =
          (Inquiry.latest? id (c.inquiries e ids)).map TrackedBook.ofSnapshot
  /-- The first response that cannot be added up is the last one that is asked for. -/
  overflows : ∀ [Arrangement] ids e, (¬ ∀ q ∈ c.inquiries e ids, q.AddsUp) →
    ∃ before id after s o, ids = before ++ id :: after ∧ (∀ q ∈ c.inquiries e before, q.AddsUp) ∧
      (c.inquiry (c.askedAll e before) id).snapshot? = some s ∧
      TrackedBook.ofSnapshot s = .error o ∧
      (c.trackedBooks ids).run.run e = (.error o, c.askedAll e (before ++ [id]))
  /-- The book of a product depends on the outcomes of its own inquiries, but for its time and the
  listing of its orders. -/
  alone : ∀ (σ τ : Arrangement) ids ids' e e' t t' e₁ e₁' id,
    (c.trackedBooks (A := σ) ids).run.run e = (.ok t, e₁) →
    (c.trackedBooks (A := τ) ids').run.run e' = (.ok t', e₁') →
    ((c.inquiries e ids).filter (·.id = id)).map Inquiry.outcome =
      ((c.inquiries e' ids').filter (·.id = id)).map Inquiry.outcome →
    (∀ s ∈ Inquiry.latest? id (c.inquiries e ids), s.SumsFreely) →
    Option.Rel (fun t t' => t.untimed.Alike t'.untimed) (t.find? id) (t'.find? id)
  /-- If the requests of a pass come out in the same way and its consumer is there, the snapshots
  that it sends lead from no books to the same books, but for the times and the listing of orders,
  or break off in the same way. -/
  refreshed : ∀ (σ τ : Arrangement) (p : Pairs) d now taken ids e e₀ d' e', ids.Nodup →
    (p.resolve d c now).run e₀ = ((.ok ids, d'), e') →
    (c.inquiries e ids).map Inquiry.outcome = (c.inquiries e' ids).map Inquiry.outcome →
    (∀ q ∈ c.inquiries e' ids, q.snapshot?.isSome → taken q.requests = true) →
    (∀ q ∈ c.inquiries e ids, q.SumsFreely) →
    SameOutcome Books.AlikeUntimed
      (((c.trackedBooks (A := σ) ids).run.run e).1.map Books.mk)
      ((Books.run (A := τ) .empty (((p.pass d c now taken).run e₀).1.1.sent.map .snapshot)).map
        Prod.fst)

/-- **The books at the start are those of a refresh**, for every client, every list of products and
every course of responses. -/
theorem Client.seeds (c : Client) : c.Seeds where
  toInquires := c.inquires
  built ids e h := by
    obtain ⟨es, hes⟩ := Inquiry.exists_books h
    refine ⟨_, run_trackedBooks_of_ok hes, Table.distinct_insertAll Table.distinct_empty es,
      fun id => ?_⟩
    have hfind := Inquiry.find?_of_books hes id
    refine ⟨?_, hfind⟩
    have hsome := congrArg Option.isSome hfind
    rw [Option.isSome_map, Option.isSome_map] at hsome
    rw [Table.mem_keys_iff, hsome]
    exact Inquiry.isSome_latest?_iff
  overflows ids e h := by
    obtain ⟨before, id, after, rfl, hbefore, hid⟩ := exists_first_overflow h
    obtain ⟨es, hes⟩ := Inquiry.exists_books hbefore
    obtain ⟨s, o, hs, ho⟩ := Inquiry.exists_overflow hid
    exact ⟨before, id, after, s, o, rfl, hbefore, hs, ho, run_trackedBooks_of_error hes hs ho after⟩
  alone σ τ ids ids' e e' t t' e₁ e₁' id h h' houtcome hfree := by
    obtain ⟨es, hes, rfl⟩ := exists_of_run_trackedBooks (A := σ) h
    obtain ⟨es', hes', rfl⟩ := exists_of_run_trackedBooks (A := τ) h'
    exact Inquiry.rel_find?_of_books hes hes' houtcome hfree
  refreshed σ τ p d now taken ids e e₀ d' e' hnodup htold houtcome htaken hfree := by
    have hdifferent : (((c.inquiries e' ids).filterMap Inquiry.snapshot?).map
        Snapshot.productId).Nodup := by
      refine List.Nodup.sublist (Inquiry.map_productId_sublist _) ?_
      rw [c.map_id_inquiries]
      exact hnodup
    have hsnapshots : ∀ s ∈ (c.inquiries e ids).filterMap Inquiry.snapshot?, s.SumsFreely := by
      intro s hs
      obtain ⟨q, hq, hsome⟩ := List.mem_filterMap.mp hs
      exact hfree q hq s hsome
    rw [p.run_pass_of_told taken htold, run_pass_of_taken htaken, fst_run_trackedBooks (A := σ),
      Pass.complete, Books.fst_run_snapshots (A := τ) hdifferent]
    exact (TrackedBook.sameOutcome_ofSnapshots (Inquiry.map_untimed_of_outcome houtcome)
      hsnapshots).map fun _ _ hes => Table.rel_insertAll (fun _ => .none) hes

/-- A product that is named twice has a book, one that is unknown has none, and a refresh of three
products leads to the same books in another listing. -/
theorem Client.seeds_mixed :
    (∃ t, (nearby.trackedBooks ["A", "B", "A"]).run.run .mixed =
        (.ok t, nearby.askedAll .mixed ["A", "B", "A"]) ∧
      t.Distinct ∧ "A" ∈ t.keys ∧ "B" ∉ t.keys) ∧
    SameOutcome Books.AlikeUntimed
      (((nearby.trackedBooks (A := .arrival) ["A", "B", "C"]).run.run .mixed).1.map Books.mk)
      ((Books.run (A := .reversed) .empty ((((Pairs.named ["A", "B", "C"]).pass ⟨0, none⟩ nearby 0
        fun _ => true).run .mixed).1.1.sent.map .snapshot)).map Prod.fst) := by
  constructor
  · have hmixed : (∀ q ∈ nearby.inquiries .mixed ["A", "B", "A"], q.AddsUp) ∧
        (∃ q ∈ nearby.inquiries .mixed ["A", "B", "A"], q.id = "A" ∧ q.snapshot?.isSome) ∧
          ¬ ∃ q ∈ nearby.inquiries .mixed ["A", "B", "A"], q.id = "B" ∧ q.snapshot?.isSome := by
      decide +kernel
    obtain ⟨haddsUp, hknown, hunknown⟩ := hmixed
    obtain ⟨t, hrun, hdistinct, hbooks⟩ := nearby.seeds.built _ _ haddsUp
    exact ⟨t, hrun, hdistinct, (hbooks "A").1.mpr hknown, fun h => hunknown ((hbooks "B").1.mp h)⟩
  · have hsizes : ∀ q ∈ nearby.inquiries .mixed ["A", "B", "C"], ∀ s ∈ q.snapshot?,
        (∀ a ∈ s.sizes, 0 ≤ a.coefficient ∧ a.scale ≤ 8) ∧
          (s.sizes.map Decimal.toRat).sum < 10 ^ 20 := by
      decide +kernel
    refine nearby.seeds.refreshed .arrival .reversed (.named ["A", "B", "C"]) ⟨0, none⟩ 0
      (fun _ => true) ["A", "B", "C"] .mixed .mixed ⟨0, none⟩ .mixed (by decide) rfl rfl
      (fun _ _ _ => rfl) fun q hq s hs => ?_
    obtain ⟨hspelled, hsum⟩ := hsizes q hq s hs
    exact Snapshot.sumsFreely_of_isQuantity
      (fun a ha => .of_scale_le (hspelled a ha).1 (hspelled a ha).2) hsum

/-! ## Orders that cannot be added up -/

/-- an exchange that first has more on offer at a price than a decimal holds, and then less -/
def Exchange.crowded : Exchange where
  respond asked _ := .reply 200 (glyphs (if asked.isEmpty then
    "\x7b\"sequence\": 1, \"asks\": [], " ++
      "\"bids\": [[\"1\", \"79228162514264337593543950335\", \"x\"], [\"1\", \"1\", \"y\"]]\x7d"
    else "\x7b\"sequence\": 2, \"asks\": [], \"bids\": [[\"1\", \"1\", \"z\"]]\x7d"))
  clock _ := default
  log := []

/-- **A response that cannot be added up breaks off.** A product whose last response has a book has
none, and only one of its two requests is made. -/
theorem Client.trackedBooks_crowded :
    (Inquiry.latest? "A" (nearby.inquiries .crowded ["A", "A"])).any
        (fun s => (TrackedBook.ofSnapshot s).isOk) ∧
      (nearby.askedAll .crowded ["A", "A"]).log.length = 2 ∧
      ((nearby.trackedBooks ["A", "A"]).run.run .crowded).2.log.length = 1 ∧
      ¬ ∃ t e, (nearby.trackedBooks ["A", "A"]).run.run .crowded = (.ok t, e) := by
  have herror : ((nearby.trackedBooks ["A", "A"]).run.run .crowded).1.isOk = false := by
    decide +kernel
  refine ⟨by decide +kernel, by decide +kernel, by decide +kernel, ?_⟩
  rintro ⟨t, e, hrun⟩
  rw [hrun] at herror
  cases herror

end MarketFeed
