import MarketFeed.Proofs.Cache.Together
import MarketFeed.Proofs.Rest.Fetching

/-!
# Consulting the directory

The directory of the markets is a cache in front of the exchange. Callers come, wait and give up in
any order, and the refresh in flight fetches the markets at some time in between; no other refresh
asks the exchange for anything meanwhile, so all of its requests can be taken at one time. Requests
are sent only by a refresh that has not ended, and while one has not ended nothing stored is fresh.
So a fresh ranking answers all who come without a request, and once it has expired it is replaced by
a whole fetch or not at all.

## Main definitions

* `Directory.Event`, `Directory.Live`: what can happen to a directory in use
* `Directory.Reachable`: what can have become of a new directory
* `Directory.Lawful`: the laws of a directory in use
* `Client.AllOrNothing`: the laws of a refresh, by itself and in a directory

## Main results

* `Directory.exists_sound`: the cache of every directory in use is sound
* `Directory.lawful`: every directory in use is lawful
* `Directory.consult_of_fresh`, `Directory.consult_of_stale`: what callers get who come together
* `Client.allOrNothing`: the laws hold for every client
-/

namespace MarketFeed

namespace Directory

/-! ## Directories in use -/

/-- What can happen to a directory. -/
inductive Event
  | call (caller : ℕ)
  /-- a refresh fetches the markets -/
  | fetch (refresh : ℕ)
  | resume (caller : ℕ)
  | drop (caller : ℕ)

/-- A directory in use: its cache, and the exchange behind it. -/
structure Live where
  cache : SingleFlight (List Market)
  exchange : Exchange

/-- A refresh that has started and not ended fetches the markets, and ends. -/
def Live.fetch (c : Client) (now : ℕ) (s : Live) (refresh : ℕ) : Live :=
  if refresh < s.cache.started ∧ (s.cache.result refresh).isNone then
    ⟨s.cache.step now (.finish refresh (c.markets.run.run s.exchange).1),
      (c.markets.run.run s.exchange).2⟩
  else s

/-- What comes of an event. -/
def Live.step (c : Client) (now : ℕ) (s : Live) : Event → Live
  | .call caller => { s with cache := s.cache.step now (.call caller) }
  | .fetch refresh => s.fetch c now refresh
  | .resume caller => { s with cache := s.cache.step now (.resume caller) }
  | .drop caller => { s with cache := s.cache.step now (.drop caller) }

/-- What can have become of a new directory by the time `now`. The clock does not go back. -/
inductive Reachable (c : Client) (ttl : ℕ) (e : Exchange) : ℕ → Live → Prop
  | new (now : ℕ) : Reachable c ttl e now ⟨.new ttl, e⟩
  | step {now now' : ℕ} {s : Live} (h : Reachable c ttl e now s) (hle : now ≤ now') (ev : Event) :
      Reachable c ttl e now' (s.step c now' ev)

variable {c : Client} {ttl now now' : ℕ} {e : Exchange} {s : Live}

/-- Every event is one of the cache. A refresh ends only with what a fetch gives, and no other event
sends requests. -/
theorem exists_cacheEvent (c : Client) (now : ℕ) (s : Live) (ev : Event) :
    ∃ ce, (s.step c now ev).cache = s.cache.step now ce ∧
      (∀ r x, ce = .finish r x → x = (c.markets.run.run s.exchange).1) ∧
      (∀ caller, ce = .resume caller → ev = .resume caller) ∧
      ((s.step c now ev).exchange = s.exchange ∨ ∃ r, ev = .fetch r ∧ s.cache.Unfinished r) := by
  cases ev with
  | call caller => exact ⟨.call caller, rfl, nofun, nofun, .inl rfl⟩
  | drop caller => exact ⟨.drop caller, rfl, nofun, nofun, .inl rfl⟩
  | resume caller =>
    refine ⟨.resume caller, rfl, nofun, ?_, .inl rfl⟩
    rintro _ ⟨⟩
    rfl
  | fetch r =>
    refine ⟨.finish r (c.markets.run.run s.exchange).1, ?_, ?_, nofun, ?_⟩
    · simp only [Live.step, Live.fetch]
      split_ifs with hopen
      · rfl
      · exact (if_neg hopen).symm
    · rintro _ _ ⟨⟩
      rfl
    · simp only [Live.step, Live.fetch]
      split_ifs with hopen
      · exact .inr ⟨r, rfl, hopen.1, Option.isNone_iff_eq_none.mp hopen.2⟩
      · exact .inl rfl

/-- **The cache of every directory in use is sound.** -/
theorem exists_sound (h : Reachable c ttl e now s) : ∃ rs, s.cache.Sound ttl now rs := by
  induction h with
  | new now => exact ⟨[], SingleFlight.sound_new ttl now⟩
  | @step now now' s h hle ev ih =>
    obtain ⟨rs, hsound⟩ := ih
    obtain ⟨ce, hcache, -⟩ := exists_cacheEvent c now' s ev
    rw [hcache]
    exact ⟨_, (hsound.later hle).move (SingleFlight.move_step now' s.cache ce)⟩

/-- While something stored is fresh no refresh is in flight. -/
theorem inFlight_of_fresh? (h : Reachable c ttl e now s) (hle : now ≤ now') {ms : List Market}
    (hfresh : s.cache.fresh? now' = some ms) : s.cache.inFlight = none := by
  obtain ⟨rs, hsound⟩ := exists_sound h
  cases hflight : s.cache.inFlight with
  | none => rfl
  | some r =>
    have hstale := SingleFlight.fresh?_eq_none_iff.mpr ((hsound.later hle).expired r hflight)
    rw [hfresh] at hstale
    exact nomatch hstale

theorem fetch_of_unfinished {r : ℕ} (c : Client) (now : ℕ) (h : s.cache.Unfinished r) :
    s.fetch c now r =
      ⟨{ s.cache with
          result := fun n =>
            if n = r then some (c.markets.run.run s.exchange).1 else s.cache.result n },
        (c.markets.run.run s.exchange).2⟩ := by
  have hopen : r < s.cache.started ∧ (s.cache.result r).isNone = true := ⟨h.1, by rw [h.2]; rfl⟩
  rw [Live.fetch, if_pos hopen]
  congr 1
  exact if_pos hopen

/-! ## The laws of a directory in use -/

/-- The result of a fetch, from some exchange. -/
def Gives (c : Client) (x : Except Fault (List Market)) : Prop :=
  ∃ e as e', c.markets.run.run e = (x, e') ∧ e.Sends as e' ∧ c.Fetch as x

theorem gives_markets (c : Client) (e : Exchange) : Gives c (c.markets.run.run e).1 := by
  obtain ⟨as, r, e', hrun, hsends, hfetch⟩ := c.exists_fetch e
  rw [hrun]
  exact ⟨e, as, e', hrun, hsends, hfetch⟩

/-- **A refresh has the result of a fetch.** -/
theorem gives_of_result (h : Reachable c ttl e now s) {r : ℕ} {x : Except Fault (List Market)}
    (hresult : s.cache.result r = some x) : Gives c x := by
  induction h generalizing r x with
  | new now => exact nomatch hresult
  | @step now now' s h hle ev ih =>
    obtain ⟨ce, hcache, hfinish, -⟩ := exists_cacheEvent c now' s ev
    rw [hcache] at hresult
    rcases (SingleFlight.move_step now' s.cache ce).result_cases hresult with hold | hend
    · exact ih hold
    · rw [hfinish r x hend]
      exact gives_markets c s.exchange

/-- **What is stored changes only when a caller comes back** from a refresh that gave a ranking. -/
theorem stored_step (h : Reachable c ttl e now s) (now' : ℕ) (ev : Event) :
    (s.step c now' ev).cache.stored = s.cache.stored ∨
      ∃ caller r ms, ev = .resume caller ∧ s.cache.inFlight = some r ∧
        s.cache.phase caller = .attached r ∧ s.cache.result r = some (.ok ms) ∧
          (s.step c now' ev).cache.stored = some (ms, now' + ttl) := by
  obtain ⟨rs, hsound⟩ := exists_sound h
  obtain ⟨ce, hcache, -, hresume, -⟩ := exists_cacheEvent c now' s ev
  rw [hcache]
  rcases (SingleFlight.move_step now' s.cache ce).stored with
    hsame | ⟨r, ms, hflight, -, hnew, caller, hcaller, hphase, hresult⟩
  · exact .inl hsame
  · rw [hsound.ttl_eq] at hnew
    exact .inr ⟨caller, r, ms, hresume caller hcaller, hflight, hphase, hresult, hnew⟩

/-- **What is stored is the ranking of a whole fetch.** -/
theorem gives_of_stored (h : Reachable c ttl e now s) {v : List Market × ℕ}
    (hv : v ∈ s.cache.stored) : Gives c (.ok v.1) := by
  induction h generalizing v with
  | new now => exact nomatch hv
  | @step now now' s h hle ev ih =>
    rcases stored_step h now' ev with hsame | ⟨caller, r, ms, -, -, -, hresult, hnew⟩
    · exact ih (hsame ▸ hv)
    · rw [hnew] at hv
      cases hv
      exact gives_of_result h hresult

/-- The laws of a directory in use, whatever happens to it next. -/
structure Lawful (c : Client) (ttl now : ℕ) (s : Live) : Prop where
  /-- A refresh that has not ended is a fetch, and ends with what the fetch gives. What is stored
  waits for a caller to come back. -/
  fetches : ∀ now' r, s.cache.Unfinished r → ∃ as x, c.Fetch as x ∧
    s.exchange.Sends as (s.step c now' (.fetch r)).exchange ∧
      (s.step c now' (.fetch r)).cache.result r = some x ∧
        (s.step c now' (.fetch r)).cache.stored = s.cache.stored
  /-- Nothing else sends requests, and while a ranking is fresh nothing does. -/
  silent : ∀ now' ev, now ≤ now' → (s.step c now' ev).exchange ≠ s.exchange →
    s.cache.fresh? now' = none ∧ ∃ r, ev = .fetch r ∧ s.cache.Unfinished r
  /-- A caller that comes while a ranking is fresh is answered with it. -/
  answers : ∀ now' caller ms, s.cache.fresh? now' = some ms → s.cache.phase caller = .away →
    (s.step c now' (.call caller)).cache.phase caller = .returned (.ok ms)
  /-- A fresh ranking stays. -/
  keeps : ∀ now' ev ms, now ≤ now' → s.cache.fresh? now' = some ms →
    (s.step c now' ev).cache.stored = s.cache.stored
  /-- Whoever waited for a refresh returns what it gave, and a failure leaves what is stored as it
  was. -/
  returns : ∀ now' caller r x, s.cache.phase caller = .attached r → s.cache.result r = some x →
    (s.step c now' (.resume caller)).cache.phase caller = .returned x ∧
      ∀ f, x = .error f → (s.step c now' (.resume caller)).cache.stored = s.cache.stored
  /-- What is stored changes only when a caller comes back from a refresh that gave a ranking. -/
  stores : ∀ now' ev, (s.step c now' ev).cache.stored ≠ s.cache.stored →
    ∃ caller r ms, ev = .resume caller ∧ s.cache.phase caller = .attached r ∧
      s.cache.result r = some (.ok ms) ∧ (s.step c now' ev).cache.stored = some (ms, now' + ttl)
  /-- A refresh has the result of a fetch, and what is stored is the ranking of a whole one. -/
  whole : (∀ r x, s.cache.result r = some x → Gives c x) ∧
    ∀ v ∈ s.cache.stored, Gives c (.ok v.1)

/-- **Every directory in use is lawful.** -/
theorem lawful (h : Reachable c ttl e now s) : Lawful c ttl now s where
  fetches now' r hopen := by
    obtain ⟨as, x, e', hrun, hsends, hfetch⟩ := c.exists_fetch s.exchange
    simp only [Live.step, fetch_of_unfinished c now' hopen, hrun]
    exact ⟨as, x, hfetch, hsends, if_pos trivial, trivial⟩
  silent now' ev hle hsent := by
    obtain ⟨ce, -, -, -, hsame | ⟨r, hev, hopen⟩⟩ := exists_cacheEvent c now' s ev
    · exact absurd hsame hsent
    · refine ⟨?_, r, hev, hopen⟩
      obtain ⟨rs, hsound⟩ := exists_sound h
      exact SingleFlight.fresh?_eq_none_iff.mpr
        ((hsound.later hle).expired r (hsound.unfinished r hopen))
  answers now' caller ms hfresh haway := SingleFlight.step_call_of_fresh haway hfresh
  keeps now' ev ms hle hfresh := by
    rcases stored_step h now' ev with hsame | ⟨caller, r, ms', -, hflight, -⟩
    · exact hsame
    · rw [inFlight_of_fresh? h hle hfresh] at hflight
      exact nomatch hflight
  returns now' caller r x hphase hresult := by
    refine ⟨SingleFlight.phase_step_resume now' hphase hresult, ?_⟩
    rintro f rfl
    rcases stored_step h now' (.resume caller) with
      hsame | ⟨caller', r', ms, hcaller, -, hphase', hresult', -⟩
    · exact hsame
    · cases hcaller
      rw [hphase] at hphase'
      cases hphase'
      rw [hresult] at hresult'
      exact nomatch hresult'
  stores now' ev hchange := by
    rcases stored_step h now' ev with hsame | ⟨caller, r, ms, hev, -, hphase, hresult, hnew⟩
    · exact absurd hsame hchange
    · exact ⟨caller, r, ms, hev, hphase, hresult, hnew⟩
  whole := ⟨fun r x => gives_of_result h, fun v => gives_of_stored h⟩

end Directory

/-! ## Callers that come together -/

namespace Directory

theorem filterMap_range_eq_replicate {α : Type} {x : α} {n : ℕ} {g : ℕ → Option α}
    (h : ∀ k ∈ List.range n, g k = some x) : (List.range n).filterMap g = List.replicate n x := by
  have hconst : (List.range n).filterMap (fun _ => some x) = (List.range n).map fun _ => x :=
    congrFun List.filterMap_eq_map _
  rw [List.filterMap_congr h, hconst, List.map_const', List.length_range]

section Consult

variable {d : Directory} {c : Client} {now n : ℕ} {e e' : Exchange}
  {called s : SingleFlight (List Market)} {x y : Except Fault (List Market)}

/-- Callers that find no refresh in flight, and all return `y`. -/
theorem run_consult_of_idle
    (hcalled : (List.range n).foldl (fun s k => s.step now (.call k)) d.cache = called)
    (hflight : called.inFlight = none)
    (hresumed : (List.range n).foldl (fun s k => s.step now (.resume k)) called = s)
    (hall : ∀ k ∈ List.range n, s.phase k = .returned y) (c : Client) (e : Exchange) :
    (d.consult c now n).run e = ((List.replicate n y, { d with stored := s.stored }), e) := by
  unfold consult
  subst hcalled hresumed
  simp only [hflight]
  refine congrArg (fun rs => ((rs, _), e)) ?_
  refine filterMap_range_eq_replicate ?_
  intro k hk
  rw [hall k hk]

/-- Callers that find a refresh in flight, which fetches the markets, and all return `y`. -/
theorem run_consult_of_inFlight {r : ℕ}
    (hcalled : (List.range n).foldl (fun s k => s.step now (.call k)) d.cache = called)
    (hflight : called.inFlight = some r) (hrun : c.markets.run.run e = (x, e'))
    (hresumed : (List.range n).foldl (fun s k => s.step now (.resume k))
      (called.step now (.finish r x)) = s)
    (hall : ∀ k ∈ List.range n, s.phase k = .returned y) :
    (d.consult c now n).run e = ((List.replicate n y, { d with stored := s.stored }), e') := by
  unfold consult
  subst hcalled
  simp only [hflight]
  rw [StateT.run_bind]
  rw [hrun]
  subst hresumed
  refine congrArg (fun rs => ((rs, _), e')) ?_
  refine filterMap_range_eq_replicate ?_
  intro k hk
  rw [hall k hk]

end Consult

/-- **While the ranking is fresh all who come are answered with it**, and nothing is requested. -/
theorem consult_of_fresh {d : Directory} {now : ℕ} {ms : List Market}
    (hfresh : d.cache.fresh? now = some ms) (c : Client) (n : ℕ) (e : Exchange) :
    (d.consult c now n).run e = ((List.replicate n (.ok ms), d), e) := by
  have hall : ∀ k ∈ List.range n, (d.cache.mark (List.range n) (.returned (.ok ms))).phase k =
      .returned (.ok ms) := fun k => SingleFlight.phase_mark
  have hcalled : (List.range n).foldl (fun s k => s.step now (.call k)) d.cache = _ :=
    SingleFlight.foldl_call_of_fresh hfresh fun _ _ => rfl
  exact run_consult_of_idle hcalled rfl (SingleFlight.foldl_resume_of_returned hall) hall c e

/-- what a directory keeps after a refresh -/
def keep (d : Directory) (now : ℕ) : Except Fault (List Market) → Directory
  | .ok ms => { d with stored := some (ms, now + d.ttl) }
  | .error _ => d

/-- **Otherwise the markets are fetched once**, whatever number of callers there is, and all of them
get what the fetch gives. A failure leaves the directory as it was. -/
theorem consult_of_stale {d : Directory} {now n : ℕ} (hstale : d.cache.fresh? now = none)
    (hn : n ≠ 0) (c : Client) (e : Exchange) :
    (d.consult c now n).run e =
      ((List.replicate n (c.markets.run.run e).1, d.keep now (c.markets.run.run e).1),
        (c.markets.run.run e).2) := by
  have hids : List.range n ≠ [] := fun h => hn (List.range_eq_nil.mp h)
  have hcalled := SingleFlight.foldl_call_of_idle hids hstale rfl fun _ _ => rfl
  generalize hx : (c.markets.run.run e).1 = x
  generalize hended : SingleFlight.step now
    ({ d.cache with inFlight := some d.cache.started, started := d.cache.started + 1 }.mark
      (List.range n) (.attached d.cache.started)) (.finish d.cache.started x) = s
  have hresult : s.result 0 = some x := hended ▸ rfl
  have hflight : s.inFlight = some 0 := hended ▸ rfl
  have hphase : ∀ k ∈ List.range n, s.phase k = .attached 0 := by
    intro k hk
    rw [← hended]
    exact if_pos hk
  have hresumed : (List.range n).foldl (fun s k => s.step now (.resume k)) s = _ :=
    SingleFlight.foldl_resume_of_inFlight hids hresult hflight hphase
  have hstored : { d with stored := (s.retire now 0 x).stored } = d.keep now x := by
    rw [SingleFlight.retire_of_inFlight hflight, ← hended]
    cases x <;> rfl
  rw [← hended] at hresumed
  refine (run_consult_of_inFlight hcalled rfl (Prod.ext hx rfl) hresumed
    fun k => SingleFlight.phase_mark).trans ?_
  rw [hended, ← hstored]
  rfl

/-- One caller gets what all would get. -/
theorem run_markets {d d' : Directory} {c : Client} {now : ℕ} {e e' : Exchange}
    {x : Except Fault (List Market)} (h : (d.consult c now 1).run e = (([x], d'), e')) :
    (d.markets c now).run e = ((x, d'), e') := by
  unfold markets
  rw [StateT.run_bind, h]
  rfl

end Directory

/-! ## Refreshes -/

/-- The laws of a refresh of the markets, by itself and in a directory. -/
structure Client.AllOrNothing (c : Client) : Prop where
  /-- A fetch sends the attempts up to the first failure, which it gives, or those for all products,
  whose ranking it gives; each of them is one request. -/
  fetch : ∀ e, ∃ as r e', c.markets.run.run e = (r, e') ∧ c.Fetch as r ∧ e.Sends as e' ∧
    e' = { e with log := e.log ++ as.filterMap Attempt.url? }
  /-- Whatever callers, refreshes and the clock have done to a directory, it is lawful. -/
  directory : ∀ ttl now e s, Directory.Reachable c ttl e now s → Directory.Lawful c ttl now s
  /-- Callers that come together while a ranking is fresh are answered with it, and nothing is
  requested. -/
  fresh : ∀ (d : Directory) now n e ms, d.cache.fresh? now = some ms →
    (d.consult c now n).run e = ((List.replicate n (.ok ms), d), e) ∧
      (d.markets c now).run e = ((.ok ms, d), e)
  /-- Otherwise they share a fetch. A failure leaves the directory as it was. -/
  stale : ∀ (d : Directory) now n e r e', d.cache.fresh? now = none → n ≠ 0 →
    c.markets.run.run e = (r, e') →
      (d.consult c now n).run e = ((List.replicate n r, d.keep now r), e') ∧
        (d.markets c now).run e = ((r, d.keep now r), e')

/-- **A refresh of the markets is all or nothing**, for every client, every course of answers of the
exchange and every course of a directory. -/
theorem Client.allOrNothing (c : Client) : c.AllOrNothing where
  fetch e := by
    obtain ⟨as, r, e', hrun, hsends, hfetch⟩ := c.exists_fetch e
    exact ⟨as, r, e', hrun, hfetch, hsends, hsends.log_eq⟩
  directory ttl now e s h := Directory.lawful h
  fresh d now n e ms hfresh :=
    ⟨Directory.consult_of_fresh hfresh c n e,
      Directory.run_markets (Directory.consult_of_fresh hfresh c 1 e)⟩
  stale d now n e r e' hstale hn hrun := by
    have hconsult := Directory.consult_of_stale hstale hn c e
    have hone := Directory.consult_of_stale hstale Nat.one_ne_zero c e
    rw [hrun] at hconsult hone
    exact ⟨hconsult, Directory.run_markets hone⟩

end MarketFeed
