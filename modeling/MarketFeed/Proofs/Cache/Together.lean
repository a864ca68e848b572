import MarketFeed.Proofs.Cache.SingleFlight

/-!
# Callers that come together

Callers that come at one time, one after another, all end up at the same place: served from the
store, or attached to one refresh, which the first of them has started. When they come back from it,
the first one retires it and the others find it gone.

## Main definitions

* `SingleFlight.mark`: the cache with some callers at one place

## Main results

* `SingleFlight.foldl_eq_mark`: events that move one caller after the other to one place
* `SingleFlight.foldl_call_of_fresh`, `SingleFlight.foldl_call_of_idle`: callers that come together
* `SingleFlight.foldl_resume_of_inFlight`: callers that come back together
-/

namespace MarketFeed.SingleFlight

variable {α : Type} {s : SingleFlight α} {now : ℕ} {ids : List ℕ}

/-- Some callers stand where `p` says, and the others where they stood. -/
def mark (s : SingleFlight α) (ids : List ℕ) (p : CallerPhase α) : SingleFlight α :=
  { s with phase := fun k => if k ∈ ids then p else s.phase k }

theorem phase_mark {p : CallerPhase α} {k : ℕ} (h : k ∈ ids) : (s.mark ids p).phase k = p :=
  if_pos h

theorem phase_mark_or (s : SingleFlight α) (ids : List ℕ) (p : CallerPhase α) (k : ℕ) :
    (s.mark ids p).phase k = p ∨ (s.mark ids p).phase k = s.phase k := by
  by_cases hk : k ∈ ids
  · exact .inl (phase_mark hk)
  · exact .inr (if_neg hk)

theorem setPhase_mark (s : SingleFlight α) (ids : List ℕ) (p : CallerPhase α) (k : ℕ) :
    (s.mark ids p).setPhase k p = s.mark (ids ++ [k]) p := by
  unfold setPhase mark
  congr 1
  funext k'
  by_cases hk : k' = k
  · simp [hk]
  · simp [hk]

theorem mark_singleton (s : SingleFlight α) (k : ℕ) (p : CallerPhase α) :
    s.setPhase k p = s.mark [k] p := by
  simp [setPhase, mark]

theorem mark_mark (s : SingleFlight α) (ids ids' : List ℕ) (p : CallerPhase α) :
    (s.mark ids p).mark ids' p = s.mark (ids ++ ids') p := by
  unfold mark
  congr 1
  funext k
  by_cases hk : k ∈ ids'
  · simp [hk]
  · simp [hk]

theorem setPhase_phase {k : ℕ} {p : CallerPhase α} (h : s.phase k = p) : s.setPhase k p = s := by
  unfold setPhase
  congr 1
  funext k'
  split_ifs with hk
  · rw [hk, h]
  · rfl

/-- **Events that move one caller after the other to `p` move all of them there**, if they leave
those alone who are there already. -/
theorem foldl_eq_mark {f : SingleFlight α → ℕ → SingleFlight α} {p : CallerPhase α}
    (stay : ∀ (s' : SingleFlight α) k, s'.phase k = p → f s' k = s')
    (move : ∀ done, ∀ k ∈ ids, s.phase k ≠ p → (s.mark done p).phase k = s.phase k →
      f (s.mark done p) k = (s.mark done p).setPhase k p) :
    ids.foldl f s = s.mark ids p := by
  induction ids using List.reverseRecOn with
  | nil => simp [mark]
  | append_singleton ids k ih =>
    have hfold := ih fun done k' hk' => move done k' (List.mem_append_left _ hk')
    rw [List.foldl_append, hfold, List.foldl_cons, List.foldl_nil, ← setPhase_mark]
    by_cases hthere : (s.mark ids p).phase k = p
    · rw [stay _ k hthere, setPhase_phase hthere]
    · have hk : k ∉ ids := fun hk => hthere (phase_mark hk)
      have hold : (s.mark ids p).phase k = s.phase k := if_neg hk
      exact move ids k (by simp) (hold ▸ hthere) hold

/-! ## Calls -/

/-- A caller calls once. -/
theorem step_call_of_called {k : ℕ} (h : s.phase k ≠ .away) : s.step now (.call k) = s := by
  cases hphase : s.phase k with
  | away => exact absurd hphase h
  | _ => simp only [step, hphase]

/-- Callers that have not called before are all served while a value is fresh. -/
theorem foldl_call_of_fresh {a : α} (hfresh : s.fresh? now = some a)
    (haway : ∀ k ∈ ids, s.phase k = .away) :
    ids.foldl (fun s k => s.step now (.call k)) s = s.mark ids (.returned (.ok a)) := by
  refine foldl_eq_mark (fun s' k h => step_call_of_called (by rw [h]; exact nofun)) ?_
  intro done k hk _ hold
  have hfresh' : (s.mark done (.returned (.ok a))).fresh? now = some a := hfresh
  simp only [step, call, hold.trans (haway k hk), hfresh']

/-- Callers that have not called before all attach to the refresh in flight. -/
theorem foldl_call_of_inFlight {r : ℕ} (hstale : s.fresh? now = none)
    (hflight : s.inFlight = some r)
    (hphase : ∀ k ∈ ids, s.phase k = .away ∨ s.phase k = .attached r) :
    ids.foldl (fun s k => s.step now (.call k)) s = s.mark ids (.attached r) := by
  refine foldl_eq_mark (fun s' k h => step_call_of_called (by rw [h]; exact nofun)) ?_
  intro done k hk hne hold
  have haway := (hphase k hk).resolve_right hne
  exact step_call_of_inFlight (hold.trans haway) hstale hflight

/-- The first of some callers starts a refresh when there is none, and the others attach to it. -/
theorem foldl_call_of_idle (hids : ids ≠ []) (hstale : s.fresh? now = none)
    (hflight : s.inFlight = none) (haway : ∀ k ∈ ids, s.phase k = .away) :
    ids.foldl (fun s k => s.step now (.call k)) s =
      { s with inFlight := some s.started, started := s.started + 1 }.mark ids
        (.attached s.started) := by
  obtain ⟨k, rest, rfl⟩ := List.exists_cons_of_ne_nil hids
  have hcall : s.step now (.call k) =
      { s with inFlight := some s.started, started := s.started + 1 }.mark [k]
        (.attached s.started) := by
    rw [← mark_singleton]
    simp only [step, call, haway k List.mem_cons_self, hstale, hflight]
  rw [List.foldl_cons, hcall]
  generalize hnext : { s with inFlight := some s.started, started := s.started + 1 } = s'
  have hstale' : (s'.mark [k] (.attached s.started)).fresh? now = none := hnext ▸ hstale
  have hflight' : (s'.mark [k] (.attached s.started)).inFlight = some s.started := hnext ▸ rfl
  have hphase : s'.phase = s.phase := hnext ▸ rfl
  rw [foldl_call_of_inFlight hstale' hflight', mark_mark, List.singleton_append]
  intro j hj
  refine (phase_mark_or s' [k] (.attached s.started) j).symm.imp_left fun hold => ?_
  rw [hold, hphase]
  exact haway j (List.mem_cons_of_mem _ hj)

/-! ## Returns -/

/-- Who has returned does not come back again. -/
theorem step_resume_of_returned {k : ℕ} {x : Except Fault α} (h : s.phase k = .returned x) :
    s.step now (.resume k) = s := by
  simp only [step, resume, h]

theorem foldl_resume_of_returned {x : Except Fault α} (h : ∀ k ∈ ids, s.phase k = .returned x) :
    ids.foldl (fun s k => s.step now (.resume k)) s = s := by
  induction ids with
  | nil => rfl
  | cons k ids ih =>
    rw [List.foldl_cons, step_resume_of_returned (h k List.mem_cons_self)]
    exact ih fun j hj => h j (List.mem_cons_of_mem _ hj)

/-- Callers come back from a refresh that has made way: nothing but themselves is changed. -/
theorem foldl_resume_late {r : ℕ} {x : Except Fault α} (hresult : s.result r = some x)
    (hflight : s.inFlight ≠ some r)
    (hphase : ∀ k ∈ ids, s.phase k = .attached r ∨ s.phase k = .returned x) :
    ids.foldl (fun s k => s.step now (.resume k)) s = s.mark ids (.returned x) := by
  refine foldl_eq_mark (fun s' k => step_resume_of_returned) ?_
  intro done k hk hne hold
  have hresult' : (s.mark done (.returned x)).result r = some x := hresult
  have hflight' : (s.mark done (.returned x)).inFlight ≠ some r := hflight
  have hattached := (hphase k hk).resolve_right hne
  simp only [step, resume, hold.trans hattached, hresult', retire, if_neg hflight']

/-- Callers come back from the refresh in flight: the first of them retires it. -/
theorem foldl_resume_of_inFlight {r : ℕ} {x : Except Fault α} (hids : ids ≠ [])
    (hresult : s.result r = some x) (hflight : s.inFlight = some r)
    (hphase : ∀ k ∈ ids, s.phase k = .attached r) :
    ids.foldl (fun s k => s.step now (.resume k)) s =
      (s.retire now r x).mark ids (.returned x) := by
  obtain ⟨k, rest, rfl⟩ := List.exists_cons_of_ne_nil hids
  have hresume : s.step now (.resume k) = (s.retire now r x).mark [k] (.returned x) := by
    rw [← mark_singleton]
    simp only [step, resume, hphase k List.mem_cons_self, hresult]
  rw [List.foldl_cons, hresume]
  have hretire : s.retire now r x = _ := retire_of_inFlight hflight
  generalize s.retire now r x = s' at hretire ⊢
  have hresult' : (s'.mark [k] (.returned x)).result r = some x := hretire ▸ hresult
  have hflight' : (s'.mark [k] (.returned x)).inFlight ≠ some r := by
    rw [hretire]
    exact (Option.some_ne_none r).symm
  have hphase' : s'.phase = s.phase := hretire ▸ rfl
  rw [foldl_resume_late hresult' hflight', mark_mark, List.singleton_append]
  intro j hj
  refine (phase_mark_or s' [k] (.returned x) j).symm.imp_left fun hold => ?_
  rw [hold, hphase']
  exact hphase j (List.mem_cons_of_mem _ hj)

end MarketFeed.SingleFlight
