import MarketFeed.Proofs.Rest.Fetching

/-!
# Asking for a ticker again

A client asks for a ticker until the exchange no longer asks for patience, or until it has asked as
often as it may. All of its attempts are at one address, so they are the first ones of a sequence
that depends on the exchange alone: what decides is where that sequence has its first response of
another kind. The attempts are counted in 32 bits, and the count never overflows, since it stays
below a limit that has 32 bits itself.

## Main definitions

* `Exchange.afterGets`, `Exchange.attempt`: what comes of requests for one address
* `Attempt.Yields`: what a response gives
* `Client.Settles`: how often a ticker is asked for, and what comes of it
* `Client.Counts`: the counts at which a client asks

## Main results

* `Exchange.Sends.eq_attempts`: attempts at one address are the first ones
* `Exchange.yields_attempt`: every response gives something
* `Client.Asks.exists_settles`: the number of requests for a ticker
* `Client.ticker_settles`: every client settles what comes of a ticker
-/

namespace MarketFeed

open Json Text

/-! ## Requests for one address -/

namespace Exchange

variable {e e' : Exchange} {address : String} {as : List Attempt}

/-- the exchange after `n` requests for an address -/
def afterGets (e : Exchange) (address : String) : ℕ → Exchange
  | 0 => e
  | n + 1 => ((Exchange.get address).run.run (e.afterGets address n)).2

/-- the attempt at an address after `i` others -/
def attempt (e : Exchange) (address : String) (i : ℕ) : Attempt :=
  ⟨address, ((Exchange.get address).run.run (e.afterGets address i)).1⟩

theorem afterGets_get (e : Exchange) (address : String) (n : ℕ) :
    afterGets ((Exchange.get address).run.run e).2 address n = e.afterGets address (n + 1) := by
  induction n with
  | zero => rfl
  | succ n ih => rw [afterGets, ih]; rfl

theorem attempt_get (e : Exchange) (address : String) (i : ℕ) :
    attempt ((Exchange.get address).run.run e).2 address i = e.attempt address (i + 1) := by
  rw [attempt, afterGets_get]; rfl

/-- Attempts at one address are the first ones. -/
theorem Sends.eq_attempts (h : e.Sends as e') (haddress : ∀ a ∈ as, a.address = address) :
    as = (List.range as.length).map (e.attempt address) ∧
      e' = e.afterGets address as.length := by
  induction h with
  | nil => exact ⟨rfl, rfl⟩
  | @cons e e₁ e' a as head tail ih =>
    obtain ⟨rfl, hrest⟩ := List.forall_mem_cons.mp haddress
    obtain ⟨has, rfl⟩ := ih hrest
    have hnext : e₁ = ((Exchange.get a.address).run.run e).2 := by rw [head]
    subst hnext
    refine ⟨?_, afterGets_get e a.address as.length⟩
    rw [List.length_cons, List.range_succ_eq_map, List.map_cons, List.map_map]
    refine congrArg₂ List.cons ?_ (has.trans (List.map_congr_left fun i _ => ?_))
    · rw [attempt, afterGets, head]
    · exact attempt_get e a.address i

/-- Every attempt at the address of a resource is a request for it. -/
theorem afterGets_eq {u : Url} (h : Url.ofText address = .ok u) (e : Exchange) (n : ℕ) :
    e.afterGets address n = { e with log := e.log ++ List.replicate n u } := by
  induction n with
  | zero => simp [afterGets]
  | succ n ih =>
    rw [afterGets, ih, run_get h, List.replicate_succ', ← List.append_assoc]

theorem outcome_attempt {u : Url} (h : Url.ofText address = .ok u) (e : Exchange) (i : ℕ) :
    (e.attempt address i).outcome = (e.respond (e.log ++ List.replicate i u) u).toExcept := by
  rw [attempt, afterGets_eq h, run_get h]

/-- A request fails only as a request. -/
theorem exists_rest_of_get {f : Fault}
    (h : (Exchange.get address).run.run e = (.error f, e')) : ∃ reason, f = .rest reason := by
  cases hurl : Url.ofText address with
  | error g =>
    rw [run_get_of_error hurl] at h
    cases h
    exact ⟨_, rfl⟩
  | ok u =>
    rw [run_get hurl] at h
    cases hresponse : e.respond e.log u with
    | reply status body =>
      rw [hresponse] at h
      cases h
    | lost reason =>
      rw [hresponse] at h
      cases h
      exact ⟨reason, rfl⟩

end Exchange

/-! ## What a response gives -/

/-- What the outcome of an attempt gives to a client who asks for `what` and reads it by
`decode`. -/
inductive Attempt.Yields {α : Type} (decode : Decoder α) (what : String) :
    Attempt → Except Fault α → Prop
  /-- a response of success with a body that can be read -/
  | read {address status body x} (hstatus : isSuccess status = true)
      (hbody : decode.runGlyphs body = .ok x) :
      Yields decode what ⟨address, .ok (status, body)⟩ (.ok x)
  /-- a response of success with any other body -/
  | unreadable {address status body f} (hstatus : isSuccess status = true)
      (hbody : decode.runGlyphs body = .error f) :
      Yields decode what ⟨address, .ok (status, body)⟩
        (.error (.rest s!"error decoding response body: {f.message}"))
  /-- a response of another status -/
  | refused {address status body} (hstatus : isSuccess status = false) :
      Yields decode what ⟨address, .ok (status, body)⟩ (.error (.fetch what status))
  /-- no response -/
  | lost {address reason} :
      Yields decode what ⟨address, .error (.rest reason)⟩ (.error (.rest reason))

/-- **Every response gives something**, and it is what the client reads from it. -/
theorem Exchange.yields_attempt {α : Type} (decode : Decoder α) (what : String) (e : Exchange)
    (address : String) (i : ℕ) :
    (e.attempt address i).Yields decode what ((e.attempt address i).read decode what) := by
  unfold attempt Attempt.read
  rcases hget : (Exchange.get address).run.run (e.afterGets address i) with ⟨outcome, e'⟩
  cases outcome with
  | error f =>
    obtain ⟨reason, rfl⟩ := exists_rest_of_get hget
    exact .lost
  | ok r =>
    obtain ⟨status, body⟩ := r
    dsimp only [Except.bind, Client.accept]
    split_ifs with hstatus
    · unfold Client.readBody
      cases hbody : decode.runGlyphs body with
      | error f => exact .unreadable hstatus hbody
      | ok x => exact .read hstatus hbody
    · exact .refused (Bool.not_eq_true _ ▸ hstatus)

namespace Client

variable {c : Client} {id : String} {m : ℕ} {e e' : Exchange} {as : List Attempt}
  {r : Except Fault Ticker}

/-! ## How often -/

/-- What comes of a ticker that may be asked for `m` times: `n` requests, and the result `r`. -/
structure Settles (c : Client) (id : String) (m : ℕ) (e : Exchange) (n : ℕ)
    (r : Except Fault Ticker) : Prop where
  /-- where the address is one, the requests are all for its resource, and `n` of them are sent -/
  requests : ∀ u, Url.ofText (c.tickerAddress id) = .ok u →
    e.afterGets (c.tickerAddress id) n = { e with log := e.log ++ List.replicate n u } ∧
      ∀ i, (e.attempt (c.tickerAddress id) i).outcome =
        (e.respond (e.log ++ List.replicate i u) u).toExcept
  /-- the first response that does not ask for patience is the last one, if the client comes to
  it -/
  count : ∀ k, ¬ (e.attempt (c.tickerAddress id) k).Limited →
    (∀ i < k, (e.attempt (c.tickerAddress id) i).Limited) → n = min (k + 1) m
  /-- without one the client asks as often as it may -/
  count_of_limited : (∀ i, (e.attempt (c.tickerAddress id) i).Limited) → n = m
  /-- the last response alone decides -/
  yields : (e.attempt (c.tickerAddress id) (n - 1)).Yields Ticker.decoder
    s!"ticker for {id} on Coinbase Pro" r

/-- Attempts for a ticker end at the first response that does not ask for patience, or at the
limit. -/
theorem Asks.exists_count (h : c.Asks id m as r) (hsends : e.Sends as e') :
    ∃ n, n < m ∧ e' = e.afterGets (c.tickerAddress id) (n + 1) ∧
      (∀ i < n, (e.attempt (c.tickerAddress id) i).Limited) ∧
      ((e.attempt (c.tickerAddress id) n).Limited → n + 1 = m) ∧
      r = (e.attempt (c.tickerAddress id) n).read Ticker.decoder
        s!"ticker for {id} on Coinbase Pro" := by
  obtain ⟨has, hend⟩ := hsends.eq_attempts h.address_eq
  obtain ⟨limited, last, hsplit, hall, hlast, hr⟩ := h.exists_last
  have hlength : as.length = limited.length + 1 := by rw [hsplit, List.length_append]; rfl
  rw [hlength, List.range_succ, List.map_append, hsplit] at has
  obtain ⟨hbefore, hone⟩ := List.append_inj has (by simp)
  obtain rfl : last = e.attempt (c.tickerAddress id) limited.length :=
    List.head_eq_of_cons_eq hone
  have hle : limited.length + 1 ≤ m := hlength ▸ h.length_le
  refine ⟨limited.length, hle, hlength ▸ hend, ?_, hlength ▸ hlast, hr⟩
  intro i hi
  refine hall _ ?_
  rw [hbefore]
  exact List.mem_map.mpr ⟨i, List.mem_range.mpr (by simpa using hi), rfl⟩

/-- **The number of requests for a ticker** is the place of the first response that does not ask for
patience, or the limit. -/
theorem Asks.exists_settles (h : c.Asks id m as r) (hsends : e.Sends as e') :
    ∃ n, e' = e.afterGets (c.tickerAddress id) n ∧ c.Settles id m e n r := by
  obtain ⟨n, hlt, hend, hbefore, hlast, rfl⟩ := h.exists_count hsends
  refine ⟨n + 1, hend, ?_, ?_, ?_, ?_⟩
  · intro u hu
    exact ⟨Exchange.afterGets_eq hu e _, Exchange.outcome_attempt hu e⟩
  · intro k hother hlimited
    rcases Nat.lt_trichotomy n k with hlater | rfl | hearlier
    · have hfull := hlast (hlimited n hlater)
      omega
    · omega
    · exact absurd (hbefore k hearlier) hother
  · intro hlimited
    exact hlast (hlimited n)
  · exact Exchange.yields_attempt _ _ e _ n

/-! ## The count -/

/-- The counts at which a client who asks for a ticker sends its next request, each with the
exchange at that time. -/
inductive Counts (c : Client) (id : String) (e : Exchange) : c.Count → Exchange → Prop
  | zero : Counts c id e .zero e
  /-- the exchange has asked for patience once more, and may be asked again -/
  | succ {made e₁ e₂ body} (h : Counts c id e made e₁)
      (hget : (Exchange.get (c.tickerAddress id)).run.run e₁ = (.ok (tooManyRequests, body), e₂))
      (hmore : (made.value + 1).toNat < c.attempts) : Counts c id e ⟨made.value + 1, hmore⟩ e₂

/-- A client who asks for a ticker comes through each of its counts, and each of them is the number
of requests that have been sent. -/
theorem Counts.run_eq {made : c.Count} (h : c.Counts id e made e') :
    (c.ticker id).run.run e = (c.tickerAfter id made).run.run e' ∧
      e' = e.afterGets (c.tickerAddress id) made.value.toNat := by
  induction h with
  | zero => exact ⟨rfl, rfl⟩
  | @succ made e₁ e₂ body h hget hmore ih =>
    obtain ⟨hrun, rfl⟩ := ih
    constructor
    · rw [hrun, tickerAfter, run_bind_ok hget, dif_pos ⟨rfl, hmore⟩]
    · rw [made.toNat_succ, Exchange.afterGets, hget]

/-- **Every client settles what comes of a ticker**, whatever limit it has been given, with zero for
one, and whatever the exchange responds. What it sends ends with the first response that does not
ask for patience, or at the limit, and the last response decides. The count of its requests never
overflows. -/
theorem ticker_settles (endpoint : String) (m : UInt32) (id : String) (e : Exchange) :
    (∃ n r, ((new endpoint m).ticker id).run.run e =
        (r, e.afterGets ((new endpoint m).tickerAddress id) n) ∧
      (new endpoint m).Settles id (max m.toNat 1) e n r) ∧
    ∀ made e', (new endpoint m).Counts id e made e' →
      ((new endpoint m).ticker id).run.run e =
        ((new endpoint m).tickerAfter id made).run.run e' ∧
      e' = e.afterGets ((new endpoint m).tickerAddress id) made.value.toNat ∧
      made.value.toNat < max m.toNat 1 ∧ (made.value + 1).toNat = made.value.toNat + 1 := by
  constructor
  · obtain ⟨as, r, e', hrun, hsends, hasks⟩ := (new endpoint m).exists_asks_ticker id e
    obtain ⟨n, rfl, hsettles⟩ := hasks.exists_settles hsends
    exact ⟨n, r, hrun, hsettles⟩
  · intro made e' hcounts
    obtain ⟨hrun, hend⟩ := hcounts.run_eq
    exact ⟨hrun, hend, made.lt, made.toNat_succ⟩

end Client

end MarketFeed
