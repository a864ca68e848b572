import MarketFeed.Cache.Rehearsal
import MarketFeed.Proofs.Cache.SingleFlight

/-!
# When a refresh is forgotten

A refresh stays where callers find it until one of those attached to it comes back. From then on no
call has to do with it any more, but for the value it may have left in the store, and that only
while it is fresh. If all of them are given up first, nobody takes the refresh away: however long
ago it has ended, the next call attaches to it and gets what it gave, be it a failure or a value
that was never stored.

## Main definitions

* `SingleFlight.CameBack`: somebody has come back from a refresh
* `SingleFlight.Deserted`: a refresh has ended, and nobody is attached to it any more
* `SingleFlight.PassesOver`: a call has nothing to do with a refresh
* `SingleFlight.Revives`: a call brings back a refresh

## Main results

* `SingleFlight.Attended.step`, `SingleFlight.attended_run`: a refresh that has started is in
  flight, or somebody has come back from it, and never both
* `SingleFlight.passesOver_iff_cameBack`: a call passes over a deserted refresh just if somebody has
  come back from it
* `SingleFlight.failure_outlives_callers`: a failure that is handed out after all its callers have
  gone
-/

namespace MarketFeed.SingleFlight

variable {α : Type} {s s' : SingleFlight α} {ev : CacheEvent α} {e : ℕ × CacheEvent α}
  {es : List (ℕ × CacheEvent α)} {ret : Option (Retirement α)} {ttl now caller refresh c r : ℕ}
  {x : Except Fault α}

/-- Somebody who was attached to a refresh has come back from it. -/
def CameBack (ttl : ℕ) (es : List (ℕ × CacheEvent α)) (refresh : ℕ) : Prop :=
  ∃ c x, Joined ttl es c refresh ∧ ((new ttl).run es).phase c = .returned x

/-- A refresh has ended with an outcome, and whoever was attached to it has returned or was given
up. -/
structure Deserted (s : SingleFlight α) (refresh : ℕ) (x : Except Fault α) : Prop where
  result : s.result refresh = some x
  unattached : ∀ c, s.phase c ≠ .attached refresh

/-- A call has nothing to do with an old refresh: it is served a value that is stored and not over
yet, or else attaches to a refresh that has started later, which it starts itself if none is in
flight. -/
def PassesOver (ttl : ℕ) (es : List (ℕ × CacheEvent α)) (now caller refresh : ℕ) : Prop :=
  let s := (new ttl).run es
  let s' := s.step now (.call caller)
  (∃ ret ∈ (new ttl).retirements es, ∃ a, ret.outcome = .ok a ∧
    s.stored = some (a, ret.time + ttl) ∧ now < ret.time + ttl ∧
      s'.phase caller = .returned (.ok a)) ∨
  (∀ v ∈ s.stored, v.2 ≤ now) ∧ ∃ later, refresh < later ∧ s'.phase caller = .attached later ∧
    (s.inFlight = some later ∨ s.inFlight = none ∧ later = s.started ∧ s'.started = s.started + 1)

/-- A call brings back an old refresh: it starts none of its own, and all it ever gets is what the
old one gave. -/
structure Revives (s : SingleFlight α) (now caller refresh : ℕ) (x : Except Fault α) : Prop where
  attached : (s.step now (.call caller)).phase caller = .attached refresh
  started : (s.step now (.call caller)).started = s.started
  received : ∀ now',
    ((s.step now (.call caller)).step now' (.resume caller)).phase caller = .returned x
  only : ∀ es y, ((s.step now (.call caller)).run es).phase caller = .returned y → y = x

/-! ## Steps -/

/-- A phase is the one that was set, or was there before. -/
theorem phase_of_setPhase {p q : CallerPhase α} (h : (s.setPhase caller p).phase c = q) :
    c = caller ∧ p = q ∨ s.phase c = q := by
  by_cases hc : c = caller
  · rw [hc, phase_setPhase_self] at h
    exact .inl ⟨hc, h⟩
  · rw [phase_setPhase_of_ne _ _ hc] at h
    exact .inr h

/-- What a caller has returned stays as it is. -/
theorem Move.returned (h : Move now s ev s' ret) (hreturned : s.phase c = .returned x) :
    s'.phase c = .returned x := by
  rcases h.phase_cases c with hsame | haway | ⟨r, hattached, -⟩
  · exact hsame.trans hreturned
  · rw [hreturned] at haway
    cases haway
  · rw [hreturned] at hattached
    cases hattached

/-- Nobody comes back who was given up. -/
theorem Move.dropped (h : Move now s ev s' ret) (hdropped : s.phase c = .dropped) :
    s'.phase c = .dropped := by
  rcases h.phase_cases c with hsame | haway | ⟨r, hattached, -⟩
  · exact hsame.trans hdropped
  · rw [hdropped] at haway
    cases haway
  · rw [hdropped] at hattached
    cases hattached

/-- A refresh leaves its place only with a caller who comes back from it. -/
theorem Move.leaves (h : Move now s ev s' ret) (hflight : s.inFlight = some r) :
    s'.inFlight = some r ∨ ∃ c x, s.phase c = .attached r ∧ s'.phase c = .returned x := by
  cases h with
  | @retire c r' y hphase _ hr =>
    obtain rfl : r' = r := Option.some.inj (hr.symm.trans hflight)
    exact .inr ⟨c, y, hphase, phase_setPhase_self _ _ _⟩
  | start _ _ hnone =>
    rw [hnone] at hflight
    cases hflight
  | _ => exact .inl hflight

/-- A refresh that is in flight was so before, or has just started. -/
theorem Move.enters (h : Move now s ev s' ret) (hflight : s'.inFlight = some r) :
    s.inFlight = some r ∨ r = s.started ∧ s'.started = s.started + 1 := by
  cases h with
  | start => exact .inr ⟨(Option.some.inj hflight).symm, rfl⟩
  | retire _ _ hr =>
    rw [retire_of_inFlight hr] at hflight
    cases hflight
  | _ => exact .inl hflight

/-- Who is attached to a refresh was so before, or has come while it is in flight. -/
theorem Move.attaches (h : Move now s ev s' ret) (hattached : s'.phase c = .attached r) :
    s.phase c = .attached r ∨ s'.inFlight = some r := by
  cases h with
  | serve | drop | late =>
    rcases phase_of_setPhase hattached with ⟨-, hp⟩ | hbefore
    · cases hp
    · exact .inl hbefore
  | retire _ _ hr =>
    rw [retire_of_inFlight hr] at hattached
    rcases phase_of_setPhase hattached with ⟨-, hp⟩ | hbefore
    · cases hp
    · exact .inl hbefore
  | attach _ _ hflight =>
    rcases phase_of_setPhase hattached with ⟨-, hp⟩ | hbefore
    · exact .inr (CallerPhase.attached.inj hp ▸ hflight)
    · exact .inl hbefore
  | start =>
    rcases phase_of_setPhase hattached with ⟨-, hp⟩ | hbefore
    · exact .inr (congrArg some (CallerPhase.attached.inj hp))
    · exact .inl hbefore
  | finish | stay => exact .inl hattached

/-- A refresh that has ended has started. -/
theorem Move.result_lt (h : Move now s ev s' ret) (hresult : s'.result r = some x) :
    s.result r = some x ∨ r < s.started := by
  cases h with
  | @finish refresh y hopen =>
    by_cases hr : r = refresh
    · exact .inr (hr ▸ hopen.1)
    · exact .inl ((if_neg hr).symm.trans hresult)
  | retire _ _ hr =>
    rw [retire_of_inFlight hr] at hresult
    exact .inl hresult
  | _ => exact .inl hresult

theorem Move.started_le (h : Move now s ev s' ret) : s.started ≤ s'.started := by
  rcases h.started with hsame | ⟨hnext, -⟩
  · exact hsame.ge
  · exact hnext ▸ Nat.le_succ _

/-- A refresh that has started did so before, or is in flight now. -/
theorem Move.starts (h : Move now s ev s' ret) (hlt : r < s'.started) :
    r < s.started ∨ s'.inFlight = some r := by
  cases h with
  | start =>
    rcases Nat.lt_succ_iff_lt_or_eq.mp hlt with hlt | rfl
    · exact .inl hlt
    · exact .inr rfl
  | retire _ _ hr =>
    rw [retire_of_inFlight hr] at hlt
    exact .inl hlt
  | _ => exact .inl hlt

/-- Who comes back from a refresh leaves it in flight no longer. -/
theorem Move.not_inFlight (h : Move now s ev s' ret) (hattached : s.phase c = .attached r)
    (hreturned : s'.phase c = .returned x) : s'.inFlight ≠ some r := by
  cases h with
  | retire _ _ hr =>
    rw [retire_of_inFlight hr]
    exact nofun
  | late hphase _ hne =>
    rcases phase_of_setPhase hreturned with ⟨rfl, -⟩ | hbefore
    · rw [hphase] at hattached
      exact CallerPhase.attached.inj hattached ▸ hne
    · cases hattached.symm.trans hbefore
  | serve hphase =>
    rcases phase_of_setPhase hreturned with ⟨rfl, -⟩ | hbefore
    · cases hattached.symm.trans hphase
    · cases hattached.symm.trans hbefore
  | attach | start | drop =>
    rcases phase_of_setPhase hreturned with ⟨-, hp⟩ | hbefore
    · cases hp
    · cases hattached.symm.trans hbefore
  | finish | stay => cases hattached.symm.trans hreturned

/-! ## Runs -/

theorem run_concat (s : SingleFlight α) (es : List (ℕ × CacheEvent α)) (e : ℕ × CacheEvent α) :
    s.run (es ++ [e]) = (s.run es).step e.1 e.2 := by
  rw [run_append]
  rfl

/-- Who has been attached when one more event has happened was so before, or is attached now. -/
theorem joined_concat :
    Joined ttl (es ++ [e]) c r ↔
      Joined ttl es c r ∨ ((new ttl).run (es ++ [e])).phase c = .attached r := by
  constructor
  · rintro ⟨es₁, hprefix, hattached⟩
    rcases List.prefix_concat_iff.mp hprefix with rfl | hprefix
    · exact .inr hattached
    · exact .inl ⟨es₁, hprefix, hattached⟩
  · rintro (⟨es₁, hprefix, hattached⟩ | hattached)
    · exact ⟨es₁, hprefix.trans (List.prefix_append _ _), hattached⟩
    · exact ⟨_, List.prefix_rfl, hattached⟩

/-- What a cache knows of a refresh that has started: it is in flight until somebody comes back from
it. -/
structure Attended (ttl : ℕ) (es : List (ℕ × CacheEvent α)) : Prop where
  result_lt : ∀ r x, ((new ttl).run es).result r = some x → r < ((new ttl).run es).started
  inFlight_lt : ∀ r, ((new ttl).run es).inFlight = some r → r < ((new ttl).run es).started
  joined_lt : ∀ c r, Joined ttl es c r → r < ((new ttl).run es).started
  accounted : ∀ r < ((new ttl).run es).started,
    ((new ttl).run es).inFlight = some r ∨ CameBack ttl es r
  pending : ∀ r, ((new ttl).run es).inFlight = some r → ¬ CameBack ttl es r

theorem attended_nil : Attended ttl ([] : List (ℕ × CacheEvent α)) := by
  refine ⟨nofun, nofun, ?_, nofun, nofun⟩
  rintro c r ⟨es₁, hprefix, hattached⟩
  rw [List.prefix_nil.mp hprefix] at hattached
  cases hattached

/-- **An event keeps every refresh accounted for.** -/
theorem Attended.step (h : Attended ttl es) (e : ℕ × CacheEvent α) : Attended ttl (es ++ [e]) := by
  have hmove := move_step e.1 ((new ttl).run es) e.2
  have hrun := run_concat (new ttl) es e
  have hflight_lt : ∀ r, ((new ttl).run (es ++ [e])).inFlight = some r →
      r < ((new ttl).run (es ++ [e])).started := by
    intro r hflight
    rw [hrun] at hflight ⊢
    rcases hmove.enters hflight with hbefore | ⟨rfl, hnext⟩
    · exact (h.inFlight_lt r hbefore).trans_le hmove.started_le
    · exact hnext ▸ Nat.lt_succ_self _
  refine ⟨?result_lt, hflight_lt, ?joined_lt, ?accounted, ?pending⟩
  case result_lt =>
    intro r x hresult
    rw [hrun] at hresult ⊢
    rcases hmove.result_lt hresult with hbefore | hlt
    · exact (h.result_lt r x hbefore).trans_le hmove.started_le
    · exact hlt.trans_le hmove.started_le
  case joined_lt =>
    intro c r hjoined
    have hbefore : ∀ {c}, Joined ttl es c r → r < ((new ttl).run (es ++ [e])).started := by
      intro c hbefore
      rw [hrun]
      exact (h.joined_lt c r hbefore).trans_le hmove.started_le
    rcases joined_concat.mp hjoined with hjoined | hattached
    · exact hbefore hjoined
    · rw [hrun] at hattached
      rcases hmove.attaches hattached with hattached | hflight
      · exact hbefore ⟨es, List.prefix_rfl, hattached⟩
      · exact hflight_lt r (hrun ▸ hflight)
  case accounted =>
    intro r hlt
    rw [hrun] at hlt
    have hcame : CameBack ttl es r → CameBack ttl (es ++ [e]) r := by
      rintro ⟨c, x, hjoined, hreturned⟩
      exact ⟨c, x, joined_concat.mpr (.inl hjoined), hrun ▸ hmove.returned hreturned⟩
    rcases hmove.starts hlt with hlt | hflight
    · rcases h.accounted r hlt with hflight | hbefore
      · rcases hmove.leaves hflight with hflight | ⟨c, x, hattached, hreturned⟩
        · exact .inl (hrun ▸ hflight)
        · exact .inr ⟨c, x, ⟨es, List.prefix_append _ _, hattached⟩, hrun ▸ hreturned⟩
      · exact .inr (hcame hbefore)
    · exact .inl (hrun ▸ hflight)
  case pending =>
    rintro r hflight ⟨c, x, hjoined, hreturned⟩
    rw [hrun] at hflight hreturned
    rcases joined_concat.mp hjoined with hjoined | hattached
    · have hbefore : ((new ttl).run es).inFlight = some r := by
        rcases hmove.enters hflight with hbefore | ⟨rfl, -⟩
        · exact hbefore
        · exact absurd (h.joined_lt c _ hjoined) (Nat.lt_irrefl _)
      rcases hjoined.boundTo with hattached | hdropped | ⟨y, hbound, -⟩
      · exact hmove.not_inFlight hattached hreturned hflight
      · cases (hmove.dropped hdropped).symm.trans hreturned
      · exact h.pending r hbefore ⟨c, y, hjoined, hbound⟩
    · rw [hrun] at hattached
      cases hattached.symm.trans hreturned

/-- **Every refresh that has started is in flight until somebody comes back from it**, and no
longer. -/
theorem attended_run (ttl : ℕ) (es : List (ℕ × CacheEvent α)) : Attended ttl es := by
  induction es using List.reverseRecOn with
  | nil => exact attended_nil
  | append_singleton es e ih => exact ih.step e

/-! ## Calls -/

theorem result_run (hresult : s.result r = some x) : (s.run es).result r = some x := by
  induction es generalizing s with
  | nil => exact hresult
  | cons e es ih => exact ih ((move_step e.1 s e.2).result hresult)

/-- A call that finds an old refresh in flight brings it back. -/
theorem revives_of_inFlight (haway : s.phase caller = .away) (hstale : s.fresh? now = none)
    (hflight : s.inFlight = some refresh) (hresult : s.result refresh = some x) :
    s.Revives now caller refresh x := by
  have hcall := step_call_of_inFlight haway hstale hflight
  have hattached : (s.step now (.call caller)).phase caller = .attached refresh := by
    rw [hcall, phase_setPhase_self]
  have hresult' : (s.step now (.call caller)).result refresh = some x := hcall ▸ hresult
  refine ⟨hattached, by rw [hcall]; rfl, fun now' => phase_step_resume now' hattached hresult', ?_⟩
  intro es y hreturned
  have hgiven := result_of_returned (.inl hattached) hreturned
  rw [result_run hresult'] at hgiven
  exact (Option.some.inj hgiven).symm

/-- **A call passes over a refresh that has ended and that nobody waits for just if somebody has
come back from it.** If all who were attached to it have been given up, the call brings it back,
whatever it gave and however long ago. -/
theorem passesOver_iff_cameBack (hclock : Clocked es) (hnow : ∀ e ∈ es, e.1 ≤ now)
    (hdeserted : ((new ttl).run es).Deserted refresh x)
    (haway : ((new ttl).run es).phase caller = .away) :
    (PassesOver ttl es now caller refresh ↔ CameBack ttl es refresh) ∧
      (¬ CameBack ttl es refresh → ((new ttl).run es).Revives now caller refresh x) := by
  have hattended := attended_run ttl es
  have hsound : ((new ttl).run es).Sound ttl now _ := sound_run hclock hnow
  have hlt := hattended.result_lt refresh x hdeserted.result
  have hrevives : ¬ CameBack ttl es refresh → ((new ttl).run es).Revives now caller refresh x := by
    intro hgone
    have hflight := (hattended.accounted refresh hlt).resolve_right hgone
    have hstale := fresh?_eq_none_iff.mpr (hsound.expired refresh hflight)
    exact revives_of_inFlight haway hstale hflight hdeserted.result
  refine ⟨⟨fun hpasses => ?_, fun hback => ?_⟩, hrevives⟩
  · by_contra hgone
    have hattached := (hrevives hgone).attached
    rcases hpasses with ⟨_, _, a, _, _, _, hserved⟩ | ⟨_, later, hlater, hattached', _⟩
    · cases hattached.symm.trans hserved
    · rw [hattached] at hattached'
      exact absurd (CallerPhase.attached.inj hattached') hlater.ne
  · cases hfresh : ((new ttl).run es).fresh? now with
    | some a =>
      obtain ⟨expiry, hstored, hexpiry⟩ := stored_of_fresh? hfresh
      obtain ⟨ret, hret, hvalue, rfl⟩ := exists_of_lastValue (hsound.stored_eq.symm.trans hstored)
      exact .inl ⟨ret, hret, a, hvalue, hstored, hexpiry, step_call_of_fresh haway hfresh⟩
    | none =>
      refine .inr ⟨fresh?_eq_none_iff.mp hfresh, ?_⟩
      cases hflight : ((new ttl).run es).inFlight with
      | some later =>
        have hnewest := hsound.newest later hflight
        have hne : later ≠ refresh := by
          rintro rfl
          exact hattended.pending later hflight hback
        refine ⟨later, by omega, ?_, .inl rfl⟩
        rw [step_call_of_inFlight haway hfresh hflight, phase_setPhase_self]
      | none =>
        exact ⟨_, hlt, phase_step_call_of_idle haway hfresh hflight,
          .inr ⟨rfl, rfl, (step_call_of_idle haway hfresh hflight).1⟩⟩

/-- A refresh fails, and its only caller is given up before it takes note of that. -/
def desertedEvents : List (ℕ × CacheEvent ℕ) :=
  [(0, .call 0), (50, .finish 0 (.error .timeout)), (50, .drop 0)]

/-- A failed refresh that one of its callers has come back from is passed over; one whose only
caller was given up is brought back. -/
theorem passesOver_iff_cameBack_samples :
    (Clocked sampleEvents ∧ (∀ e ∈ sampleEvents, e.1 ≤ 17) ∧
      ((new 10).run sampleEvents).Deserted 1 (.error .timeout) ∧
        ((new 10).run sampleEvents).phase 5 = .away ∧ PassesOver 10 sampleEvents 17 5 1) ∧
      Clocked desertedEvents ∧ (∀ e ∈ desertedEvents, e.1 ≤ 100) ∧
        ((new 1000).run desertedEvents).Deserted 0 (.error .timeout) ∧
          ((new 1000).run desertedEvents).phase 1 = .away ∧
            ((new 1000).run desertedEvents).Revives 100 1 0 (.error .timeout) := by
  have hclock : Clocked sampleEvents := by unfold Clocked; decide
  have hnow : ∀ e ∈ sampleEvents, e.1 ≤ 17 := by decide
  have hdeserted : ((new 10).run sampleEvents).Deserted 1 (.error .timeout) :=
    ⟨rfl, fun | 0 | 1 | 2 | 3 | 4 | _ + 5 => nofun⟩
  have hback : CameBack 10 sampleEvents 1 :=
    ⟨4, .error .timeout, ⟨sampleEvents.take 8, List.take_prefix _ _, rfl⟩, rfl⟩
  have hclock' : Clocked desertedEvents := by unfold Clocked; decide
  have hnow' : ∀ e ∈ desertedEvents, e.1 ≤ 100 := by decide
  have hdeserted' : ((new 1000).run desertedEvents).Deserted 0 (.error .timeout) :=
    ⟨rfl, fun | 0 | _ + 1 => nofun⟩
  have hgone : ¬ CameBack 1000 desertedEvents 0 := (attended_run 1000 desertedEvents).pending 0 rfl
  exact ⟨⟨hclock, hnow, hdeserted, rfl,
      (passesOver_iff_cameBack hclock hnow hdeserted rfl).1.mpr hback⟩,
    hclock', hnow', hdeserted', rfl,
    (passesOver_iff_cameBack hclock' hnow' hdeserted' rfl).2 hgone⟩

/-- Visits in the order of their times are taken as they come. -/
theorem rehearse_of_ordered {ttl : ℕ} {visits : List (Visit α)}
    (h : ((List.range visits.length).zip visits).Pairwise fun a b => a.2.time ≤ b.2.time) :
    rehearse ttl visits =
      (List.range visits.length).map fun caller =>
        (CachePlay.visit ((List.range visits.length).zip visits)
          ⟨.new ttl, none, [], []⟩).answers.lookup caller := by
  unfold rehearse
  dsimp only
  rw [List.mergeSort_of_pairwise (h.imp fun hab => decide_eq_true hab)]

/-- **A failure is handed out after all its callers have gone.** -/
theorem failure_outlives_callers :
    Clocked desertedEvents ∧ ((new 1000).run desertedEvents).Deserted 0 (.error .timeout) ∧
      ((new 1000).run desertedEvents).phase 1 = .away ∧
      ¬ PassesOver 1000 desertedEvents 100 1 0 ∧
      ((new 1000).run (desertedEvents ++ [(100, .call 1), (100, .resume 1)])).phase 1 =
        .returned (.error .timeout) ∧
      rehearse 1000 [⟨0, 50, .error .timeout, some 10⟩, ⟨100, 5, .ok 7, none⟩] =
        [some ⟨none, true, 10⟩, some ⟨some (.error .timeout), false, 100⟩] := by
  refine ⟨by unfold Clocked; decide, ⟨rfl, fun | 0 | _ + 1 => nofun⟩, rfl, ?_, rfl,
    (rehearse_of_ordered ?_).trans rfl⟩
  · rintro (⟨_, _, _, _, _, _, hserved⟩ | ⟨_, later, hlater, hattached, _⟩)
    · cases hserved
    · cases hattached
      exact absurd hlater (Nat.lt_irrefl 0)
  · simp [List.range_succ]

end MarketFeed.SingleFlight
