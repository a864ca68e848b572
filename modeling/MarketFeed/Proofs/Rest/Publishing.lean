import MarketFeed.Proofs.Rest.Consulting
import MarketFeed.Proofs.Rest.Inquiring
import MarketFeed.Rest.Refresher

/-!
# Publishing books

A pass asks for the books of its products one after another. As long as the consumer takes what
there is, the pass goes through the whole list, hands on every snapshot and counts every inquiry on
one of two sides. It ends early only at a snapshot that nobody takes. The products themselves may
not be told, but never for want of a consumer, so nothing else stops the refresher.

## Main definitions

* `Pass.complete`: a pass whose consumer takes every book
* `KeepsOn`: a computation that does not fail for want of a consumer
* `Refresher.Ends`: passes with what ended them
* `Client.Publishes`: the laws of passes and of the refresher

## Main results

* `Client.run_pass_append`: a pass goes on after products whose books are taken
* `Client.keepsOn_markets`, `Pairs.ne_consumerGone_of_resolve`: the products may be untold, but not
  for want of a consumer
* `Refresher.exists_ends`: the refresher stops when a book is not taken
* `Client.publishes`: the laws hold for every client and every consumer
-/

namespace MarketFeed

open Json Text

/-! ## Passes -/

namespace Pass

/-- a pass that goes on where another one has ended -/
def append (a b : Pass) : Pass :=
  ⟨a.sent ++ b.sent, a.published + b.published, a.failures + b.failures, b.result⟩

/-- a pass whose consumer takes every book -/
def complete (qs : List Inquiry) : Pass where
  sent := qs.filterMap Inquiry.snapshot?
  published := qs.countP fun q => q.snapshot?.isSome
  failures := qs.countP fun q => q.snapshot?.isNone
  result := .ok ()

/-- a pass that ends before a book that nobody takes -/
def refused (qs : List Inquiry) : Pass := { complete qs with result := .error .consumerGone }

theorem complete_nil_append (p : Pass) : (complete []).append p = p := by
  simp [append, complete]

theorem complete_append_nil (qs : List Inquiry) :
    (complete qs).append (complete []) = complete qs := by
  simp [append, complete]

theorem complete_append_refused (qs : List Inquiry) :
    (complete qs).append (refused []) = refused qs := by
  simp [append, refused, complete]

theorem complete_cons_append (q : Inquiry) (qs : List Inquiry) (p : Pass) :
    (complete (q :: qs)).append p = (complete [q]).append ((complete qs).append p) := by
  unfold append complete
  cases h : q.snapshot? <;> simp [h, Nat.add_comm, Nat.add_left_comm]

theorem append_of_failed {q : Inquiry} (h : q.snapshot? = none) (p : Pass) :
    (complete [q]).append p = { p with failures := p.failures + 1 } := by
  simp [append, complete, h, Nat.add_comm]

theorem append_of_sent {q : Inquiry} {s : Snapshot} (h : q.snapshot? = some s) (p : Pass) :
    (complete [q]).append p = { p with sent := s :: p.sent, published := p.published + 1 } := by
  simp [append, complete, h, Nat.add_comm]

theorem published_complete (qs : List Inquiry) :
    (complete qs).published = (complete qs).sent.length := by
  induction qs with
  | nil => rfl
  | cons q qs ih =>
    unfold complete at ih ⊢
    cases h : q.snapshot? <;> simpa [h] using ih

/-- Every inquiry is counted on one of two sides. -/
theorem published_add_failures (qs : List Inquiry) :
    (complete qs).published + (complete qs).failures = qs.length := by
  induction qs with
  | nil => rfl
  | cons q qs ih =>
    dsimp only [complete] at ih ⊢
    cases h : q.snapshot? <;> simp [h] <;> omega

end Pass

namespace Client

variable {c : Client} {taken : ℕ → Bool} {e : Exchange} {id : String} {ids before : List String}

theorem run_publish_of_none (taken : ℕ → Bool) (h : (c.inquiry e id).snapshot? = none) :
    ∃ f, (c.publish taken id).run e = (.failed f, c.asked e id) := by
  obtain ⟨f, hrun⟩ := run_snapshot_of_none h
  refine ⟨f, ?_⟩
  rw [publish, StateT.run_bind, hrun]
  rfl

theorem run_publish_of_some {s : Snapshot} (h : (c.inquiry e id).snapshot? = some s) :
    (c.publish taken id).run e =
      (if taken (c.inquiry e id).requests then .sent s else .refused, c.asked e id) := by
  rw [publish, StateT.run_bind, run_snapshot_of_some h]
  rfl

/-- A pass goes on after a book that is taken, or cannot be had. -/
theorem run_pass_cons_of_taken
    (h : (c.inquiry e id).snapshot?.isSome → taken (c.inquiry e id).requests = true)
    (ids : List String) :
    (c.pass taken (id :: ids)).run e =
      ((Pass.complete [c.inquiry e id]).append ((c.pass taken ids).run (c.asked e id)).1,
        ((c.pass taken ids).run (c.asked e id)).2) := by
  rw [pass, StateT.run_bind]
  cases hs : (c.inquiry e id).snapshot? with
  | none =>
    obtain ⟨f, hrun⟩ := run_publish_of_none taken hs
    rw [hrun, Pass.append_of_failed hs]
    rfl
  | some s =>
    rw [run_publish_of_some hs, if_pos (h (hs ▸ rfl)), Pass.append_of_sent hs]
    rfl

/-- A pass ends at a book that nobody takes. -/
theorem run_pass_cons_of_refused (hsome : (c.inquiry e id).snapshot?.isSome)
    (hgone : taken (c.inquiry e id).requests = false) (ids : List String) :
    (c.pass taken (id :: ids)).run e = (Pass.refused [], c.asked e id) := by
  obtain ⟨s, hs⟩ := Option.isSome_iff_exists.mp hsome
  rw [pass, StateT.run_bind, run_publish_of_some hs, hgone]
  rfl

/-- **A pass goes on after products whose books are taken**, with what it has done for them. -/
theorem run_pass_append
    (h : ∀ q ∈ c.inquiries e before, q.snapshot?.isSome → taken q.requests = true)
    (ids : List String) :
    (c.pass taken (before ++ ids)).run e =
      ((Pass.complete (c.inquiries e before)).append
          ((c.pass taken ids).run (c.askedAll e before)).1,
        ((c.pass taken ids).run (c.askedAll e before)).2) := by
  induction before generalizing e with
  | nil =>
    rw [inquiries, Pass.complete_nil_append]
    rfl
  | cons id before ih =>
    obtain ⟨hone, hrest⟩ := List.forall_mem_cons.mp h
    rw [List.cons_append, run_pass_cons_of_taken hone, ih hrest]
    exact Prod.ext (Pass.complete_cons_append _ _ _).symm rfl

theorem run_pass_of_taken
    (h : ∀ q ∈ c.inquiries e ids, q.snapshot?.isSome → taken q.requests = true) :
    (c.pass taken ids).run e = (Pass.complete (c.inquiries e ids), c.askedAll e ids) := by
  have hrun := run_pass_append h []
  rw [List.append_nil] at hrun
  rw [hrun]
  exact Prod.ext (Pass.complete_append_nil _) rfl

theorem run_pass_of_refused
    (h : ∀ q ∈ c.inquiries e before, q.snapshot?.isSome → taken q.requests = true)
    (hsome : (c.inquiry (c.askedAll e before) id).snapshot?.isSome)
    (hgone : taken (c.inquiry (c.askedAll e before) id).requests = false) (ids : List String) :
    (c.pass taken (before ++ id :: ids)).run e =
      (Pass.refused (c.inquiries e before), c.askedAll e (before ++ [id])) := by
  rw [run_pass_append h, run_pass_cons_of_refused hsome hgone, askedAll_append]
  exact Prod.ext (Pass.complete_append_refused _) rfl

end Client

/-! ## The products of a pass -/

/-- A computation does not fail for want of a consumer. -/
def KeepsOn {α : Type} (x : Requests α) : Prop :=
  ∀ e e' f, x.run.run e = (.error f, e') → f ≠ .consumerGone

section KeepsOn

variable {α β : Type}

theorem keepsOn_pure (a : α) : KeepsOn (pure a : Requests α) := by
  intro e e' f h
  cases h

theorem KeepsOn.bind {x : Requests α} {g : α → Requests β} (hx : KeepsOn x)
    (hg : ∀ a, KeepsOn (g a)) : KeepsOn (x >>= g) := by
  intro e e' f h
  rcases hrun : x.run.run e with ⟨r, e₁⟩
  cases r with
  | error f' =>
    rw [run_bind_error hrun] at h
    cases h
    exact hx _ _ _ hrun
  | ok a =>
    rw [run_bind_ok hrun] at h
    exact hg a _ _ _ h

theorem keepsOn_get (address : String) : KeepsOn (Exchange.get address) := by
  intro e e' f h
  obtain ⟨reason, rfl⟩ := Exchange.exists_rest_of_get h
  exact nofun

theorem keepsOn_accept (decode : Decoder α) (what : String) (r : ℕ × List Glyph) :
    KeepsOn (ExceptT.mk (pure (Client.accept decode what r)) : Requests α) := by
  intro e e' f h
  obtain ⟨status, body⟩ := r
  replace h : Client.accept decode what (status, body) = .error f := congrArg Prod.fst h
  dsimp only [Client.accept] at h
  split_ifs at h
  · unfold Client.readBody at h
    cases hbody : decode.runGlyphs body with
    | error g =>
      rw [hbody] at h
      cases h
      exact nofun
    | ok a =>
      rw [hbody] at h
      cases h
  · cases h
    exact nofun

end KeepsOn

namespace Client

theorem keepsOn_products (c : Client) : KeepsOn c.products :=
  (keepsOn_get _).bind fun r => keepsOn_accept _ _ r

theorem keepsOn_tickerAfter (c : Client) (id : String) (made : c.Count) :
    KeepsOn (c.tickerAfter id made) := by
  rw [tickerAfter]
  refine (keepsOn_get _).bind fun r => ?_
  split_ifs with more
  · exact c.keepsOn_tickerAfter id ⟨made.value + 1, more.2⟩
  · exact keepsOn_accept _ _ r
termination_by c.attempts - made.value.toNat
decreasing_by
  have hroom := made.lt
  rw [made.toNat_succ]
  omega

theorem keepsOn_marketsOf (c : Client) (ps : List Product) : KeepsOn (c.marketsOf ps) := by
  induction ps with
  | nil => exact keepsOn_pure []
  | cons p ps ih =>
    exact (c.keepsOn_tickerAfter p.id .zero).bind fun _ => ih.bind fun _ => keepsOn_pure _

theorem keepsOn_markets (c : Client) : KeepsOn c.markets :=
  c.keepsOn_products.bind fun ps => (c.keepsOn_marketsOf ps).bind fun _ => keepsOn_pure _

end Client

/-- The directory fails as a fetch does. -/
theorem Directory.exists_markets (d : Directory) (c : Client) (now : ℕ) (e : Exchange) :
    ∃ x d' e', (d.markets c now).run e = ((x, d'), e') ∧ ∀ f, x = .error f → f ≠ .consumerGone := by
  cases hfresh : d.cache.fresh? now with
  | some ms => exact ⟨.ok ms, d, e, run_markets (consult_of_fresh hfresh c 1 e), nofun⟩
  | none =>
    refine ⟨_, _, _, run_markets (consult_of_stale hfresh Nat.one_ne_zero c e), ?_⟩
    intro f hf
    exact c.keepsOn_markets e _ f (Prod.ext hf rfl)

namespace Pairs

variable {p : Pairs} {d d' : Directory} {c : Client} {now : ℕ} {e e' : Exchange}

/-- **The products may be untold, but not for want of a consumer.** -/
theorem ne_consumerGone_of_resolve {f : Fault}
    (h : (p.resolve d c now).run e = ((.error f, d'), e')) : f ≠ .consumerGone := by
  cases p with
  | named ids => cases h
  | listed =>
    obtain ⟨x, d₁, e₁, hrun, hkeeps⟩ := d.exists_markets c now e
    unfold resolve at h
    rw [StateT.run_bind, hrun] at h
    cases x with
    | ok ms => cases h
    | error g =>
      cases h
      exact hkeeps f rfl

theorem run_pass_of_told {ids : List String} (taken : ℕ → Bool)
    (h : (p.resolve d c now).run e = ((.ok ids, d'), e')) :
    (p.pass d c now taken).run e =
      ((((c.pass taken ids).run e').1, d'), ((c.pass taken ids).run e').2) := by
  rw [pass, StateT.run_bind, h]
  rfl

theorem run_pass_of_untold {f : Fault} (taken : ℕ → Bool)
    (h : (p.resolve d c now).run e = ((.error f, d'), e')) :
    (p.pass d c now taken).run e = ((⟨[], 0, 0, .error f⟩, d'), e') := by
  rw [pass, StateT.run_bind, h]
  rfl

end Pairs

/-! ## The refresher -/

namespace Refresher

/-- Passes with what ended them, where there may be `n`. Only a pass for want of a consumer ends
them, and it ends them at once. -/
inductive Ends : ℕ → List Pass → Option Fault → Prop
  | going {passes : List Pass} (h : ∀ p ∈ passes, p.result ≠ .error .consumerGone) :
      Ends passes.length passes none
  | stopped {n : ℕ} {passes : List Pass} {last : Pass}
      (h : ∀ p ∈ passes, p.result ≠ .error .consumerGone)
      (hlast : last.result = .error .consumerGone) (hlt : passes.length < n) :
      Ends n (passes ++ [last]) (some .consumerGone)

theorem Ends.cons {n : ℕ} {passes : List Pass} {stopped : Option Fault} {p : Pass}
    (hp : p.result ≠ .error .consumerGone) (h : Ends n passes stopped) :
    Ends (n + 1) (p :: passes) stopped := by
  cases h with
  | going h => exact .going (List.forall_mem_cons.mpr ⟨hp, h⟩)
  | stopped h hlast hlt =>
    exact .stopped (List.forall_mem_cons.mpr ⟨hp, h⟩) hlast (Nat.succ_lt_succ hlt)

theorem next_of_ne {r : Except Fault Unit} (h : r ≠ .error .consumerGone) :
    next r = .hour ∨ next r = .retry := by
  match r with
  | .ok () => exact .inl rfl
  | .error f =>
    cases f with
    | consumerGone => exact absurd rfl h
    | _ => exact .inr rfl

section Run

variable {p : Pairs} {c : Client} {now : ℕ → ℕ} {taken : ℕ → Bool} {n i : ℕ} {d d₁ d' : Directory}
  {e e₁ e' : Exchange} {first : Pass}

theorem run_of_consumerGone (h : (p.pass d c (now i) taken).run e = ((first, d₁), e₁))
    (hgone : first.result = .error .consumerGone) :
    (Refresher.run p c now taken (n + 1) i d).run e =
      ((([first], some .consumerGone), d₁), e₁) := by
  rw [Refresher.run, StateT.run_bind, h]
  dsimp only [bind]
  rw [hgone]
  rfl

theorem run_of_ne {passes : List Pass} {stopped : Option Fault}
    (h : (p.pass d c (now i) taken).run e = ((first, d₁), e₁))
    (hgone : first.result ≠ .error .consumerGone)
    (hrun : (Refresher.run p c now taken n (i + 1) d₁).run e₁ = (((passes, stopped), d'), e')) :
    (Refresher.run p c now taken (n + 1) i d).run e =
      (((first :: passes, stopped), d'), e') := by
  rw [Refresher.run, StateT.run_bind, h]
  dsimp only [bind]
  rcases next_of_ne hgone with hnext | hnext
  · rw [hnext]
    exact congrArg (fun r => (((first :: r.1.1.1, r.1.1.2), r.1.2), r.2)) hrun
  · rw [hnext]
    exact congrArg (fun r => (((first :: r.1.1.1, r.1.1.2), r.1.2), r.2)) hrun

end Run

/-- **The refresher stops when a book is not taken**, and for nothing else. -/
theorem exists_ends (p : Pairs) (c : Client) (now : ℕ → ℕ) (taken : ℕ → Bool) (n i : ℕ)
    (d : Directory) (e : Exchange) :
    ∃ passes stopped d' e',
      (Refresher.run p c now taken n i d).run e = (((passes, stopped), d'), e') ∧
        Ends n passes stopped := by
  induction n generalizing i d e with
  | zero => exact ⟨[], none, d, e, rfl, .going (List.forall_mem_nil _)⟩
  | succ n ih =>
    rcases hpass : (p.pass d c (now i) taken).run e with ⟨⟨first, d₁⟩, e₁⟩
    by_cases hgone : first.result = .error .consumerGone
    · have hends : Ends (n + 1) ([] ++ [first]) (some .consumerGone) :=
        .stopped (List.forall_mem_nil _) hgone n.succ_pos
      exact ⟨[first], some .consumerGone, d₁, e₁, run_of_consumerGone hpass hgone, hends⟩
    · obtain ⟨passes, stopped, d', e', hrun, hends⟩ := ih (i + 1) d₁ e₁
      exact ⟨first :: passes, stopped, d', e', run_of_ne hpass hgone hrun, .cons hgone hends⟩

end Refresher

/-- The laws of the passes of a client and of the refresher, whose consumer takes a book as long as
`taken` holds of the number of requests so far. -/
structure Client.Publishes (c : Client) (taken : ℕ → Bool) : Prop extends c.Inquires where
  /-- While the consumer takes what there is, a pass makes all inquiries and sends all snapshots, in
  order. It counts each inquiry as published or as a failure. -/
  alive : ∀ ids e, (∀ q ∈ c.inquiries e ids, q.snapshot?.isSome → taken q.requests = true) →
    ∃ p, (c.pass taken ids).run e = (p, c.askedAll e ids) ∧ p.result = .ok () ∧
      p.sent = (c.inquiries e ids).filterMap Inquiry.snapshot? ∧
      p.published = p.sent.length ∧
      p.failures = (c.inquiries e ids).countP (fun q => q.snapshot?.isNone) ∧
      p.published + p.failures = ids.length
  /-- It ends at the first snapshot that nobody takes, after all that it has done before. -/
  gone : ∀ before id after e,
    (∀ q ∈ c.inquiries e before, q.snapshot?.isSome → taken q.requests = true) →
    (c.inquiry (c.askedAll e before) id).snapshot?.isSome →
    taken (c.inquiry (c.askedAll e before) id).requests = false →
    ∃ p, (c.pass taken (before ++ id :: after)).run e = (p, c.askedAll e (before ++ [id])) ∧
      p.result = .error .consumerGone ∧
      p.sent = (c.inquiries e before).filterMap Inquiry.snapshot? ∧
      p.published = p.sent.length ∧
      p.failures = (c.inquiries e before).countP (fun q => q.snapshot?.isNone) ∧
      p.published + p.failures = before.length
  /-- A pass over products that are told asks for their books. -/
  told : ∀ (p : Pairs) d now e ids d' e', (p.resolve d c now).run e = ((.ok ids, d'), e') →
    (p.pass d c now taken).run e =
      ((((c.pass taken ids).run e').1, d'), ((c.pass taken ids).run e').2)
  /-- If they cannot be told, the pass fails for that reason, which is not the consumer. -/
  untold : ∀ (p : Pairs) d now e f d' e', (p.resolve d c now).run e = ((.error f, d'), e') →
    (p.pass d c now taken).run e = ((⟨[], 0, 0, .error f⟩, d'), e') ∧ f ≠ .consumerGone
  /-- The refresher makes one pass after another, until one of them ends for want of a consumer. -/
  ends : ∀ p now n i d e, ∃ passes stopped d' e',
    (Refresher.run p c now taken n i d).run e = (((passes, stopped), d'), e') ∧
      Refresher.Ends n passes stopped

/-- **A pass publishes what it has fetched**, and nothing but the want of a consumer ends the
refresher, for every client, every list of products, every course of responses and every
consumer. -/
theorem Client.publishes (c : Client) (taken : ℕ → Bool) : c.Publishes taken where
  toInquires := c.inquires
  alive ids e htaken := by
    refine ⟨_, run_pass_of_taken htaken, rfl, rfl, Pass.published_complete _, rfl, ?_⟩
    rw [Pass.published_add_failures, ← List.length_map Inquiry.id, c.map_id_inquiries]
  gone before id after e htaken hsome hgone := by
    refine ⟨_, run_pass_of_refused htaken hsome hgone after, rfl, rfl,
      Pass.published_complete (c.inquiries e before), rfl, ?_⟩
    have hcount := Pass.published_add_failures (c.inquiries e before)
    rw [← List.length_map Inquiry.id, c.map_id_inquiries] at hcount
    exact hcount
  told p d now e ids d' e' h := p.run_pass_of_told taken h
  untold p d now e f d' e' h := ⟨p.run_pass_of_untold taken h, p.ne_consumerGone_of_resolve h⟩
  ends p now n i d e := Refresher.exists_ends p c now taken n i d e

/-- Three products, of which the second one is unknown, and a consumer who takes no third book. -/
theorem Client.publishes_mixed :
    (∃ p, (nearby.pass (fun _ => true) ["A", "B", "C"]).run .mixed =
        (p, nearby.askedAll .mixed ["A", "B", "C"]) ∧
      p.result = .ok () ∧ p.published = 2 ∧ p.failures = 1) ∧
    ∃ p, (nearby.pass (· < 3) (["A", "B"] ++ "C" :: ["D"])).run .mixed =
        (p, nearby.askedAll .mixed (["A", "B"] ++ ["C"])) ∧
      p.result = .error .consumerGone ∧ p.published = 1 ∧ p.failures = 1 := by
  constructor
  · have hcounts :
        ((nearby.inquiries .mixed ["A", "B", "C"]).filterMap Inquiry.snapshot?).length = 2 ∧
          (nearby.inquiries .mixed ["A", "B", "C"]).countP (fun q => q.snapshot?.isNone) = 1 := by
      decide +kernel
    obtain ⟨p, hrun, hresult, hsent, hpublished, hfailures, -⟩ :=
      (nearby.publishes fun _ => true).alive ["A", "B", "C"] .mixed fun _ _ _ => rfl
    rw [← hsent, ← hpublished, ← hfailures] at hcounts
    exact ⟨p, hrun, hresult, hcounts⟩
  · have hgone : ((∀ q ∈ nearby.inquiries .mixed ["A", "B"],
          q.snapshot?.isSome → decide (q.requests < 3) = true) ∧
        (nearby.inquiry (nearby.askedAll .mixed ["A", "B"]) "C").snapshot?.isSome ∧
          decide ((nearby.inquiry (nearby.askedAll .mixed ["A", "B"]) "C").requests < 3) = false) ∧
        ((nearby.inquiries .mixed ["A", "B"]).filterMap Inquiry.snapshot?).length = 1 ∧
          (nearby.inquiries .mixed ["A", "B"]).countP (fun q => q.snapshot?.isNone) = 1 := by
      decide +kernel
    obtain ⟨⟨htaken, hsome, hclosed⟩, hcounts⟩ := hgone
    obtain ⟨p, hrun, hresult, hsent, hpublished, hfailures, -⟩ :=
      (nearby.publishes (· < 3)).gone ["A", "B"] "C" ["D"] .mixed htaken hsome hclosed
    rw [← hsent, ← hpublished, ← hfailures] at hcounts
    exact ⟨p, hrun, hresult, hcounts⟩

end MarketFeed
