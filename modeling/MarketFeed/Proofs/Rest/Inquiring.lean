import MarketFeed.Proofs.Rest.Patience

/-!
# Asking for books

Both the books at the start and those of a refresh are asked for product by product. What comes of
it is the same in both: for each product one request, and a snapshot or a failure, by what the
exchange responds after all the requests before.

## Main definitions

* `Inquiry`: a book that was asked for, and what came of it
* `Client.inquiries`: what comes of asking for the books of some products
* `Client.askedAll`: the exchange after that
* `Client.Inquires`: the laws of inquiries

## Main results

* `Client.run_snapshot_of_some`: a snapshot is what comes of an inquiry
* `Client.sends_inquiries`, `Client.askedAll_eq`: there is one request for each product, in order
* `Client.inquires`: the laws hold for every client
* `Inquiry.snapshot?_eq_some_iff`: a snapshot has the rows of its response
-/

namespace MarketFeed

open Json Text

/-- A book that was asked for, and what came of it. -/
structure Inquiry where
  /-- the product -/
  id : String
  attempt : Attempt
  /-- the time when the outcome was there -/
  time : Instant
  /-- how many requests had been sent by then -/
  requests : ℕ

namespace Inquiry

/-- the listing that a client reads from the outcome -/
def listing (q : Inquiry) : Except Fault Listing :=
  q.attempt.read Listing.decoder s!"Coinbase Pro market snapshot for {q.id}"

/-- the snapshot, if there is one -/
def snapshot? (q : Inquiry) : Option Snapshot :=
  q.listing.toOption.map fun l => l.stamp q.id q.time

/-- A snapshot has the product that was asked for, and the sequence and the rows of the response. -/
theorem snapshot?_eq_some_iff {q : Inquiry} {s : Snapshot} :
    q.snapshot? = some s ↔
      ∃ l, q.listing = .ok l ∧ s = ⟨q.id, q.time, l.sequence, l.bids, l.asks⟩ := by
  unfold snapshot?
  cases q.listing with
  | error f => simp [Except.toOption]
  | ok l => simp [Except.toOption, Listing.stamp, eq_comm]

theorem productId_of_snapshot? {q : Inquiry} {s : Snapshot} (h : q.snapshot? = some s) :
    s.productId = q.id := by
  obtain ⟨l, -, rfl⟩ := snapshot?_eq_some_iff.mp h
  rfl

end Inquiry

namespace Client

variable {c : Client} {e : Exchange} {id : String}

/-- the exchange after the book of a product has been asked for -/
def asked (c : Client) (e : Exchange) (id : String) : Exchange :=
  ((Exchange.get (c.bookAddress id)).run.run e).2

/-- what comes of asking for the book of a product -/
def inquiry (c : Client) (e : Exchange) (id : String) : Inquiry where
  id := id
  attempt := e.attempt (c.bookAddress id) 0
  time := (c.asked e id).now
  requests := (c.asked e id).log.length

theorem run_get_inquiry (c : Client) (e : Exchange) (id : String) :
    (Exchange.get (c.inquiry e id).attempt.address).run.run e =
      ((c.inquiry e id).attempt.outcome, c.asked e id) := by
  dsimp only [inquiry, asked, Exchange.attempt, Exchange.afterGets]
  exact (Prod.eta _).symm

/-- the exchange after the books of some products have been asked for -/
def askedAll (c : Client) : Exchange → List String → Exchange
  | e, [] => e
  | e, id :: ids => c.askedAll (c.asked e id) ids

/-- what comes of asking for the books of some products -/
def inquiries (c : Client) : Exchange → List String → List Inquiry
  | _, [] => []
  | e, id :: ids => c.inquiry e id :: c.inquiries (c.asked e id) ids

theorem askedAll_append (c : Client) (e : Exchange) (ids ids' : List String) :
    c.askedAll e (ids ++ ids') = c.askedAll (c.askedAll e ids) ids' := by
  induction ids generalizing e with
  | nil => rfl
  | cons id ids ih => rw [List.cons_append, askedAll, askedAll, ih]

@[simp] theorem map_id_inquiries (c : Client) (e : Exchange) (ids : List String) :
    (c.inquiries e ids).map Inquiry.id = ids := by
  induction ids generalizing e with
  | nil => rfl
  | cons id ids ih => rw [inquiries, List.map_cons, ih, inquiry]

theorem map_address_inquiries (c : Client) (e : Exchange) (ids : List String) :
    ((c.inquiries e ids).map Inquiry.attempt).map Attempt.address = ids.map c.bookAddress := by
  induction ids generalizing e with
  | nil => rfl
  | cons id ids ih =>
    rw [inquiries, List.map_cons, List.map_cons, ih, List.map_cons, inquiry, Exchange.attempt]

/-- **There is one request for each product**, in order, and nothing else is requested. -/
theorem sends_inquiries (c : Client) (e : Exchange) (ids : List String) :
    e.Sends ((c.inquiries e ids).map Inquiry.attempt) (c.askedAll e ids) := by
  induction ids generalizing e with
  | nil => exact .nil
  | cons id ids ih =>
    rw [inquiries, List.map_cons, askedAll]
    exact .cons (c.run_get_inquiry e id) (ih (c.asked e id))

theorem askedAll_eq (c : Client) (e : Exchange) (ids : List String) :
    c.askedAll e ids =
      { e with
        log := e.log ++ ids.filterMap fun id => (Url.ofText (c.bookAddress id)).toOption } := by
  rw [(c.sends_inquiries e ids).log_eq]
  have hurls : ((c.inquiries e ids).map Inquiry.attempt).filterMap Attempt.url? =
      (((c.inquiries e ids).map Inquiry.attempt).map Attempt.address).filterMap fun address =>
        (Url.ofText address).toOption := by
    rw [List.filterMap_map, List.filterMap_map, List.filterMap_map]
    rfl
  rw [hurls, map_address_inquiries, List.filterMap_map]
  rfl

/-- What a client reads from the outcomes of its inquiries is what these give. -/
theorem yields_inquiries {q : Inquiry} {ids : List String} (h : q ∈ c.inquiries e ids) :
    q.attempt.Yields Listing.decoder s!"Coinbase Pro market snapshot for {q.id}" q.listing := by
  induction ids generalizing e with
  | nil => exact nomatch h
  | cons id ids ih =>
    rcases List.mem_cons.mp h with rfl | h
    · exact Exchange.yields_attempt Listing.decoder _ e (c.bookAddress id) 0
    · exact ih h

theorem run_listing (c : Client) (id : String) (e : Exchange) :
    (c.listing id).run.run e = ((c.inquiry e id).listing, c.asked e id) := by
  unfold listing
  exact Attempt.run_read (a := (c.inquiry e id).attempt) (c.run_get_inquiry e id)

/-- **A snapshot is what comes of an inquiry.** -/
theorem run_snapshot_of_some {s : Snapshot} (h : (c.inquiry e id).snapshot? = some s) :
    (c.snapshot id).run.run e = (.ok s, c.asked e id) := by
  have hlisting := c.run_listing id e
  unfold Inquiry.snapshot? at h
  cases hread : (c.inquiry e id).listing with
  | error f =>
    rw [hread] at h
    cases h
  | ok l =>
    rw [hread] at hlisting h
    cases h
    exact run_bind_ok hlisting

theorem run_snapshot_of_none (h : (c.inquiry e id).snapshot? = none) :
    ∃ f, (c.snapshot id).run.run e = (.error f, c.asked e id) := by
  have hlisting := c.run_listing id e
  unfold Inquiry.snapshot? at h
  cases hread : (c.inquiry e id).listing with
  | error f =>
    rw [hread] at hlisting
    exact ⟨f, run_bind_error hlisting⟩
  | ok l =>
    rw [hread] at h
    cases h

end Client

/-- The laws of the inquiries of a client. -/
structure Client.Inquires (c : Client) : Prop where
  /-- There is one inquiry for each product, in order. Each is one request, unless its address is
  none. -/
  requests : ∀ ids e, (c.inquiries e ids).map Inquiry.id = ids ∧
    ((c.inquiries e ids).map Inquiry.attempt).map Attempt.address = ids.map c.bookAddress ∧
      e.Sends ((c.inquiries e ids).map Inquiry.attempt) (c.askedAll e ids) ∧
      c.askedAll e ids =
        { e with
          log := e.log ++ ids.filterMap fun id => (Url.ofText (c.bookAddress id)).toOption }
  /-- An inquiry gives what the response to it gives. A snapshot has the product that was asked for,
  and the sequence and the rows of the response. -/
  reads : ∀ ids e, ∀ q ∈ c.inquiries e ids,
    q.attempt.Yields Listing.decoder s!"Coinbase Pro market snapshot for {q.id}" q.listing ∧
      ∀ s, q.snapshot? = some s ↔
        ∃ l, q.listing = .ok l ∧ s = ⟨q.id, q.time, l.sequence, l.bids, l.asks⟩

theorem Client.inquires (c : Client) : c.Inquires where
  requests ids e :=
    ⟨c.map_id_inquiries e ids, c.map_address_inquiries e ids, c.sends_inquiries e ids,
      c.askedAll_eq e ids⟩
  reads _ _ _ hq := ⟨yields_inquiries hq, fun _ => Inquiry.snapshot?_eq_some_iff⟩

/-- a client of an exchange nearby -/
def Client.nearby : Client := .new "http://localhost" 1

/-- an exchange that knows all products but the second one that it is asked for -/
def Exchange.mixed : Exchange where
  respond asked _ :=
    if asked.length = 1 then .reply 404 []
    else .reply 200
      (glyphs "\x7b\"sequence\": 2, \"asks\": [], \"bids\": [[\"1\", \"1\", \"z\"]]\x7d")
  clock _ := default
  log := []

end MarketFeed
