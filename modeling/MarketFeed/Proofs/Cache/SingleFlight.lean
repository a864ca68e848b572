import Mathlib.Data.List.MinMax
import MarketFeed.Cache.SingleFlight

/-!
# One refresh at a time

Callers come, give up and come back in any order, long after their refresh has ended or even after
later ones have. Only the first to come back from the refresh in flight retires it; whoever comes
back later finds another refresh in its place, or none, and leaves the cache alone. So refreshes are
retired one by one in the order in which they have started, and the stored value is that of the last
of them which gave one.

## Main definitions

* `SingleFlight.Unfinished`: a refresh has started and not ended
* `SingleFlight.retirement?`, `SingleFlight.retirements`: what an event, and what a run, retires
* `SingleFlight.Move`: what an event can do
* `SingleFlight.Sound`: what every run keeps
* `SingleFlight.Disciplined`: the laws of a cache after a run

## Main results

* `SingleFlight.move_step`: every event is one of the moves
* `SingleFlight.Sound.step`, `SingleFlight.sound_run`: soundness after an event and after a run
* `SingleFlight.result_of_returned`: who was attached returns what the refresh gave
* `SingleFlight.run_disciplined`: the laws hold after every run
-/

namespace MarketFeed

variable {α : Type}

/-- A refresh that has made way: when it did, and what it gave. -/
structure Retirement (α : Type) where
  refresh : ℕ
  time : ℕ
  outcome : Except Fault α

namespace SingleFlight

variable {s s' : SingleFlight α} {e : CacheEvent α} {es : List (ℕ × CacheEvent α)}
  {ttl now now' : ℕ}

/-- A refresh has started and not come to its end. -/
def Unfinished (s : SingleFlight α) (refresh : ℕ) : Prop :=
  refresh < s.started ∧ s.result refresh = none

/-- The refresh that an event retires: the one in flight, when it has ended and a caller attached to
it comes back. -/
def retirement? (s : SingleFlight α) (now : ℕ) : CacheEvent α → Option (Retirement α)
  | .resume caller =>
    match s.phase caller with
    | .attached refresh =>
      if s.inFlight = some refresh then (s.result refresh).map (⟨refresh, now, ·⟩) else none
    | _ => none
  | _ => none

/-- The refreshes that a run retires, in order. -/
def retirements (s : SingleFlight α) : List (ℕ × CacheEvent α) → List (Retirement α)
  | [] => []
  | e :: es => (s.retirement? e.1 e.2).toList ++ (s.step e.1 e.2).retirements es

/-- What some retirements leave in the store: the value of the last that gave one, for `ttl` from
then on. -/
def lastValue (ttl : ℕ) (rs : List (Retirement α)) : Option (α × ℕ) :=
  rs.reverse.findSome? fun r => r.outcome.toOption.map (·, r.time + ttl)

/-- The times of some events do not go back. -/
def Clocked (es : List (ℕ × CacheEvent α)) : Prop := es.Pairwise (·.1 ≤ ·.1)

theorem run_append (s : SingleFlight α) (es es' : List (ℕ × CacheEvent α)) :
    s.run (es ++ es') = (s.run es).run es' := List.foldl_append

theorem lastValue_append_ok (rs : List (Retirement α)) (refresh : ℕ) (a : α) :
    lastValue ttl (rs ++ (some ⟨refresh, now, .ok a⟩ : Option (Retirement α)).toList) =
      some (a, now + ttl) := by
  simp [lastValue, Except.toOption]

theorem lastValue_append_error (rs : List (Retirement α)) (refresh : ℕ) (f : Fault) :
    lastValue ttl (rs ++ (some ⟨refresh, now, .error f⟩ : Option (Retirement α)).toList) =
      lastValue ttl rs := by
  simp [lastValue, Except.toOption]

/-- A stored value has been left by a retirement. -/
theorem exists_of_lastValue {rs : List (Retirement α)} {a : α} {expiry : ℕ}
    (h : lastValue ttl rs = some (a, expiry)) :
    ∃ r ∈ rs, r.outcome = .ok a ∧ expiry = r.time + ttl := by
  obtain ⟨r, hr, hvalue⟩ := List.exists_of_findSome?_eq_some h
  obtain ⟨b, hb, heq⟩ := Option.map_eq_some_iff.mp hvalue
  obtain ⟨rfl, rfl⟩ := Prod.mk.inj heq
  refine ⟨r, List.mem_reverse.mp hr, ?_, rfl⟩
  cases hout : r.outcome with
  | error f => simp [hout, Except.toOption] at hb
  | ok a => simpa [hout, Except.toOption] using hb

/-! ## Moves -/

@[simp] theorem phase_setPhase_self (s : SingleFlight α) (caller : ℕ) (p : CallerPhase α) :
    (s.setPhase caller p).phase caller = p := if_pos rfl

@[simp] theorem phase_setPhase_of_ne (s : SingleFlight α) {c caller : ℕ} (p : CallerPhase α)
    (h : c ≠ caller) : (s.setPhase caller p).phase c = s.phase c := if_neg h

theorem fresh?_eq_none_iff : s.fresh? now = none ↔ ∀ v ∈ s.stored, v.2 ≤ now := by
  unfold fresh?
  rcases s.stored with - | ⟨a, expiry⟩
  · simp
  · by_cases h : now < expiry
    · simp [h, Nat.not_le.mpr h]
    · simp [h, Nat.not_lt.mp h]

/-- A fresh value is stored, and its time is not over. -/
theorem stored_of_fresh? {a : α} (h : s.fresh? now = some a) :
    ∃ expiry, s.stored = some (a, expiry) ∧ now < expiry := by
  unfold fresh? at h
  rcases hstored : s.stored with - | ⟨b, expiry⟩
  · simp [hstored] at h
  · simp only [hstored, Option.ite_none_right_eq_some, Option.some.injEq] at h
    exact ⟨expiry, by rw [h.2], h.1⟩

theorem retire_of_inFlight {refresh : ℕ} {x : Except Fault α} (h : s.inFlight = some refresh) :
    s.retire now refresh x =
      { s with
        inFlight := none
        stored := match x with
          | .ok a => some (a, now + s.ttl)
          | .error _ => s.stored } := if_pos h

/-- What an event can do to a cache, and which refresh it retires. -/
inductive Move (now : ℕ) (s : SingleFlight α) :
    CacheEvent α → SingleFlight α → Option (Retirement α) → Prop
  /-- a caller is served from the store -/
  | serve {caller : ℕ} {a : α} (hphase : s.phase caller = .away) (hfresh : s.fresh? now = some a) :
      Move now s (.call caller) (s.setPhase caller (.returned (.ok a))) none
  /-- a caller attaches to the refresh in flight -/
  | attach {caller refresh : ℕ} (hphase : s.phase caller = .away) (hstale : s.fresh? now = none)
      (hflight : s.inFlight = some refresh) :
      Move now s (.call caller) (s.setPhase caller (.attached refresh)) none
  /-- a caller starts a refresh -/
  | start {caller : ℕ} (hphase : s.phase caller = .away) (hstale : s.fresh? now = none)
      (hflight : s.inFlight = none) :
      Move now s (.call caller)
        ({ s with inFlight := some s.started, started := s.started + 1 }.setPhase caller
          (.attached s.started)) none
  /-- a refresh comes to its end -/
  | finish {refresh : ℕ} {x : Except Fault α} (hopen : s.Unfinished refresh) :
      Move now s (.finish refresh x)
        { s with result := fun n => if n = refresh then some x else s.result n } none
  /-- a caller comes back from the refresh in flight, which makes way -/
  | retire {caller refresh : ℕ} {x : Except Fault α} (hphase : s.phase caller = .attached refresh)
      (hresult : s.result refresh = some x) (hflight : s.inFlight = some refresh) :
      Move now s (.resume caller) ((s.retire now refresh x).setPhase caller (.returned x))
        (some ⟨refresh, now, x⟩)
  /-- a caller comes back from a refresh that has made way before -/
  | late {caller refresh : ℕ} {x : Except Fault α} (hphase : s.phase caller = .attached refresh)
      (hresult : s.result refresh = some x) (hflight : s.inFlight ≠ some refresh) :
      Move now s (.resume caller) (s.setPhase caller (.returned x)) none
  /-- a caller is given up -/
  | drop {caller refresh : ℕ} (hphase : s.phase caller = .attached refresh) :
      Move now s (.drop caller) (s.setPhase caller .dropped) none
  /-- nothing happens -/
  | stay {e : CacheEvent α} : Move now s e s none

/-- **Every event is one of the moves.** -/
theorem move_step (now : ℕ) (s : SingleFlight α) (e : CacheEvent α) :
    Move now s e (s.step now e) (s.retirement? now e) := by
  cases e with
  | call caller =>
    cases hphase : s.phase caller with
    | away =>
      cases hfresh : s.fresh? now with
      | some a => simpa [step, call, retirement?, hphase, hfresh] using Move.serve hphase hfresh
      | none =>
        cases hflight : s.inFlight with
        | some refresh =>
          simpa [step, call, retirement?, hphase, hfresh, hflight] using
            Move.attach hphase hfresh hflight
        | none =>
          simpa [step, call, retirement?, hphase, hfresh, hflight] using
            Move.start hphase hfresh hflight
    | attached _ | returned _ | dropped => simpa [step, retirement?, hphase] using Move.stay
  | finish refresh x =>
    by_cases hopen : s.Unfinished refresh
    · have hmove : Move now s (.finish refresh x) _ none := .finish hopen
      simpa [step, SingleFlight.finish, retirement?, hopen.1, hopen.2] using hmove
    · have hclosed : ¬ (refresh < s.started ∧ s.result refresh = none) := hopen
      simpa [step, SingleFlight.finish, retirement?, hclosed] using Move.stay
  | resume caller =>
    cases hphase : s.phase caller with
    | attached refresh =>
      cases hresult : s.result refresh with
      | none => simpa [step, resume, retirement?, hphase, hresult] using Move.stay
      | some x =>
        by_cases hflight : s.inFlight = some refresh
        · have hmove : Move now s (.resume caller) _ _ := .retire hphase hresult hflight
          simpa [step, resume, retirement?, hphase, hresult, hflight] using hmove
        · have hmove : Move now s (.resume caller) _ none := .late hphase hresult hflight
          simpa [step, resume, retirement?, SingleFlight.retire, hphase, hresult, hflight]
            using hmove
    | away | returned _ | dropped => simpa [step, resume, retirement?, hphase] using Move.stay
  | drop caller =>
    cases hphase : s.phase caller with
    | attached refresh =>
      have hmove : Move now s (.drop caller) _ none := .drop hphase
      simpa [step, SingleFlight.drop, retirement?, hphase] using hmove
    | away | returned _ | dropped =>
      simpa [step, SingleFlight.drop, retirement?, hphase] using Move.stay

/-! ## What every run keeps -/

/-- What every run keeps, `rs` being what it has retired and `now` the time it has come to. The
refresh in flight is the last that has started, and no value is fresh while there is one. -/
structure Sound (ttl now : ℕ) (rs : List (Retirement α)) (s : SingleFlight α) : Prop where
  ttl_eq : s.ttl = ttl
  newest : ∀ r ∈ s.inFlight, r + 1 = s.started
  unfinished : ∀ r, s.Unfinished r → s.inFlight = some r
  expired : ∀ r ∈ s.inFlight, ∀ v ∈ s.stored, v.2 ≤ now
  stored_eq : s.stored = lastValue ttl rs
  retired : ∀ x ∈ rs, x.refresh < s.started ∧ s.inFlight ≠ some x.refresh
  rising : (rs.map Retirement.refresh).Pairwise (· < ·)

theorem sound_new (ttl now : ℕ) : Sound ttl now [] (new ttl : SingleFlight α) where
  ttl_eq := rfl
  newest := nofun
  unfinished := fun _ h => absurd h.1 (Nat.not_lt_zero _)
  expired := nofun
  stored_eq := rfl
  retired := nofun
  rising := .nil

namespace Sound

variable {rs : List (Retirement α)}

theorem later (h : s.Sound ttl now rs) (hle : now ≤ now') : s.Sound ttl now' rs :=
  { h with expired := fun r hr v hv => Nat.le_trans (h.expired r hr v hv) hle }

theorem unfinished_unique (h : s.Sound ttl now rs) {r r' : ℕ} (hr : s.Unfinished r)
    (hr' : s.Unfinished r') : r = r' :=
  Option.some.inj ((h.unfinished r hr).symm.trans (h.unfinished r' hr'))

theorem setPhase (h : s.Sound ttl now rs) (caller : ℕ) (p : CallerPhase α) :
    (s.setPhase caller p).Sound ttl now rs := ⟨h.1, h.2, h.3, h.4, h.5, h.6, h.7⟩

/-- A refresh that starts is later than all that were retired. -/
theorem start (h : s.Sound ttl now rs) (hstale : s.fresh? now = none)
    (hflight : s.inFlight = none) :
    Sound ttl now rs { s with inFlight := some s.started, started := s.started + 1 } where
  ttl_eq := h.ttl_eq
  newest := fun r hr => by rw [← Option.some.inj hr]
  unfinished := fun r hr => by
    rcases Nat.lt_succ_iff_lt_or_eq.mp hr.1 with hlt | rfl
    · have hold := h.unfinished r ⟨hlt, hr.2⟩
      rw [hflight] at hold
      cases hold
    · rfl
  expired := fun _ _ => fresh?_eq_none_iff.mp hstale
  stored_eq := h.stored_eq
  retired := fun x hx => by
    have hlt := (h.retired x hx).1
    exact ⟨Nat.lt_succ_of_lt hlt, fun heq => Nat.ne_of_lt hlt (Option.some.inj heq).symm⟩
  rising := h.rising

theorem finish (h : s.Sound ttl now rs) (refresh : ℕ) (x : Except Fault α) :
    Sound ttl now rs { s with result := fun n => if n = refresh then some x else s.result n } :=
  { h with
    unfinished := fun r hr => by
      obtain ⟨hlt, hnone⟩ := hr
      by_cases hr : r = refresh
      · simp [hr] at hnone
      · exact h.unfinished r ⟨hlt, by simpa [hr] using hnone⟩ }

/-- The refresh in flight is later than all that were retired, so it is retired in its turn. -/
theorem retire (h : s.Sound ttl now rs) {refresh : ℕ} {x : Except Fault α}
    (hresult : s.result refresh = some x) (hflight : s.inFlight = some refresh) :
    (s.retire now refresh x).Sound ttl now
      (rs ++ (some ⟨refresh, now, x⟩ : Option (Retirement α)).toList) := by
  have hnewest := h.newest refresh hflight
  rw [retire_of_inFlight hflight]
  refine ⟨h.ttl_eq, nofun, fun r hr => ?_, nofun, ?_, fun y hy => ⟨?_, nofun⟩, ?_⟩
  · have hsame := (h.unfinished r hr).symm.trans hflight
    rw [← Option.some.inj hsame, hr.2] at hresult
    cases hresult
  · cases x with
    | ok a => rw [lastValue_append_ok, ← h.ttl_eq]
    | error f => rw [lastValue_append_error]; exact h.stored_eq
  · rcases List.mem_append.mp hy with hy | hy
    · exact (h.retired y hy).1
    · rw [Option.toList_some, List.mem_singleton] at hy
      rw [hy, ← hnewest]
      exact Nat.lt_succ_self refresh
  · rw [List.map_append, Option.toList_some, List.map_singleton, List.pairwise_append]
    refine ⟨h.rising, List.pairwise_singleton _ _, fun r hr r' hr' => ?_⟩
    obtain ⟨y, hy, rfl⟩ := List.mem_map.mp hr
    obtain ⟨hlt, hne⟩ := h.retired y hy
    obtain rfl : r' = refresh := List.mem_singleton.mp hr'
    have hother : y.refresh ≠ r' := fun heq => hne (heq ▸ hflight)
    omega

/-- **A move keeps a cache sound.** -/
theorem move {ret : Option (Retirement α)} (h : s.Sound ttl now rs) (hmove : Move now s e s' ret) :
    s'.Sound ttl now (rs ++ ret.toList) := by
  cases hmove with
  | retire hphase hresult hflight => exact (h.retire hresult hflight).setPhase _ _
  | start hphase hstale hflight =>
    rw [Option.toList_none, List.append_nil]
    exact (h.start hstale hflight).setPhase _ _
  | finish hopen =>
    rw [Option.toList_none, List.append_nil]
    exact h.finish _ _
  | serve | attach | late | drop =>
    rw [Option.toList_none, List.append_nil]
    exact h.setPhase _ _
  | stay =>
    rw [Option.toList_none, List.append_nil]
    exact h

/-- Events in the order of their times keep a cache sound. -/
theorem run (h : s.Sound ttl now rs) (hle : ∀ e ∈ es, now ≤ e.1) (hclock : Clocked es)
    (hnow : ∀ e ∈ es, e.1 ≤ now') (hend : now ≤ now') :
    (s.run es).Sound ttl now' (rs ++ s.retirements es) := by
  induction es generalizing s rs now with
  | nil => simpa [retirements, SingleFlight.run] using h.later hend
  | cons e es ih =>
    obtain ⟨hfirst, hclock⟩ := List.pairwise_cons.mp hclock
    have hstep := (h.later (hle e List.mem_cons_self)).move (move_step e.1 s e.2)
    have hrest := ih hstep hfirst hclock (fun e' he' => hnow e' (List.mem_cons_of_mem _ he'))
      (hnow e List.mem_cons_self)
    rwa [List.append_assoc] at hrest

end Sound

/-- **Every run is sound.** -/
theorem sound_run (hclock : Clocked es) (hnow : ∀ e ∈ es, e.1 ≤ now) :
    ((new ttl).run es).Sound ttl now ((new ttl).retirements es) :=
  (sound_new ttl 0).run (fun _ _ => Nat.zero_le _) hclock hnow (Nat.zero_le _)

/-! ## Callers -/

/-- What a refresh gave stays as it is. -/
theorem Move.result {ret : Option (Retirement α)} (h : Move now s e s' ret) {refresh : ℕ}
    {x : Except Fault α} (hresult : s.result refresh = some x) : s'.result refresh = some x := by
  cases h with
  | @finish r _ hopen =>
    have hne : refresh ≠ r := by
      rintro rfl
      rw [hopen.2] at hresult
      cases hresult
    simpa [hne] using hresult
  | retire _ _ hflight =>
    rw [retire_of_inFlight hflight]
    exact hresult
  | _ => exact hresult

/-- Only its end gives a refresh a result. -/
theorem Move.result_cases {ret : Option (Retirement α)} (h : Move now s e s' ret) {refresh : ℕ}
    {x : Except Fault α} (hresult : s'.result refresh = some x) :
    s.result refresh = some x ∨ e = .finish refresh x := by
  cases h with
  | @finish r y hopen =>
    by_cases hr : refresh = r
    · subst hr
      obtain rfl : y = x := by simpa using hresult
      exact .inr rfl
    · exact .inl (by simpa [hr] using hresult)
  | retire _ _ hflight =>
    rw [retire_of_inFlight hflight] at hresult
    exact .inl hresult
  | _ => exact .inl hresult

/-- A caller is left alone, unless it has not called yet or is attached; in that case it is given up
or returns what its refresh gave. -/
theorem Move.phase_cases {ret : Option (Retirement α)} (h : Move now s e s' ret) (c : ℕ) :
    s'.phase c = s.phase c ∨ s.phase c = .away ∨
      ∃ r, s.phase c = .attached r ∧
        (s'.phase c = .dropped ∨ ∃ x, s'.phase c = .returned x ∧ s.result r = some x) := by
  cases h with
  | @serve caller _ hphase | @attach caller _ hphase | @start caller hphase =>
    by_cases hc : c = caller
    · exact .inr (.inl (hc ▸ hphase))
    · exact .inl (phase_setPhase_of_ne _ _ hc)
  | @retire caller r x hphase hresult hflight =>
    by_cases hc : c = caller
    · subst hc
      exact .inr (.inr ⟨r, hphase, .inr ⟨x, phase_setPhase_self _ _ _, hresult⟩⟩)
    · refine .inl ((phase_setPhase_of_ne _ _ hc).trans ?_)
      rw [retire_of_inFlight hflight]
  | @late caller r x hphase hresult =>
    by_cases hc : c = caller
    · subst hc
      exact .inr (.inr ⟨r, hphase, .inr ⟨x, phase_setPhase_self _ _ _, hresult⟩⟩)
    · exact .inl (phase_setPhase_of_ne _ _ hc)
  | @drop caller r hphase =>
    by_cases hc : c = caller
    · subst hc
      exact .inr (.inr ⟨r, hphase, .inl (phase_setPhase_self _ _ _)⟩)
    · exact .inl (phase_setPhase_of_ne _ _ hc)
  | finish | stay => exact .inl rfl

/-- A caller is bound to a refresh: it is attached to it, was given up, or has returned what the
refresh gave. -/
def BoundTo (s : SingleFlight α) (caller refresh : ℕ) : Prop :=
  s.phase caller = .attached refresh ∨ s.phase caller = .dropped ∨
    ∃ x, s.phase caller = .returned x ∧ s.result refresh = some x

theorem Move.boundTo {ret : Option (Retirement α)} (h : Move now s e s' ret) {c r : ℕ}
    (hbound : s.BoundTo c r) : s'.BoundTo c r := by
  rcases h.phase_cases c with hsame | haway | ⟨r', hattached, hdone⟩
  · obtain hp | hp | ⟨x, hp, hx⟩ := hbound
    · exact .inl (hsame.trans hp)
    · exact .inr (.inl (hsame.trans hp))
    · exact .inr (.inr ⟨x, hsame.trans hp, h.result hx⟩)
  · obtain hp | hp | ⟨x, hp, -⟩ := hbound <;> rw [haway] at hp <;> cases hp
  · obtain hp | hp | ⟨x, hp, -⟩ := hbound <;> rw [hattached] at hp <;> cases hp
    obtain hdropped | ⟨x, hp, hx⟩ := hdone
    · exact .inr (.inl hdropped)
    · exact .inr (.inr ⟨x, hp, h.result hx⟩)

theorem BoundTo.run {c r : ℕ} (h : s.BoundTo c r) : (s.run es).BoundTo c r := by
  induction es generalizing s with
  | nil => exact h
  | cons e es ih => exact ih ((move_step e.1 s e.2).boundTo h)

theorem BoundTo.result {c r : ℕ} {x : Except Fault α} (h : s.BoundTo c r)
    (hreturned : s.phase c = .returned x) : s.result r = some x := by
  obtain hp | hp | ⟨y, hp, hy⟩ := h <;> rw [hreturned] at hp <;> cases hp
  exact hy

/-- **Who was attached to a refresh returns what it gave.** -/
theorem result_of_returned {c r : ℕ} {x : Except Fault α} (hbound : s.BoundTo c r)
    (hreturned : (s.run es).phase c = .returned x) : (s.run es).result r = some x :=
  hbound.run.result hreturned

/-- A caller has been attached to a refresh at some time of a run. -/
def Joined (ttl : ℕ) (es : List (ℕ × CacheEvent α)) (caller refresh : ℕ) : Prop :=
  ∃ es₁, es₁ <+: es ∧ ((new ttl).run es₁).phase caller = .attached refresh

theorem Joined.boundTo {c r : ℕ} (h : Joined ttl es c r) : ((new ttl).run es).BoundTo c r := by
  obtain ⟨es₁, ⟨es₂, rfl⟩, hattached⟩ := h
  rw [run_append]
  exact BoundTo.run (.inl hattached)

theorem Joined.result {c r : ℕ} {x : Except Fault α} (h : Joined ttl es c r)
    (hreturned : ((new ttl).run es).phase c = .returned x) :
    ((new ttl).run es).result r = some x :=
  h.boundTo.result hreturned

/-! ## The store -/

/-- What is stored changes only when a caller comes back and retires the refresh in flight, which
has given a value. -/
theorem Move.stored {ret : Option (Retirement α)} (h : Move now s e s' ret) :
    s'.stored = s.stored ∨ ∃ refresh a, s.inFlight = some refresh ∧
      ret = some ⟨refresh, now, .ok a⟩ ∧ s'.stored = some (a, now + s.ttl) ∧
        ∃ caller, e = .resume caller ∧ s.phase caller = .attached refresh ∧
          s.result refresh = some (.ok a) := by
  cases h with
  | @retire caller refresh x hphase hresult hflight =>
    rw [retire_of_inFlight hflight]
    cases x with
    | ok a => exact .inr ⟨refresh, a, hflight, rfl, rfl, caller, rfl, hphase, hresult⟩
    | error f => exact .inl rfl
  | _ => exact .inl rfl

/-- The refresh in flight stays there until it is retired. -/
theorem Move.inFlight {ret : Option (Retirement α)} (h : Move now s e s' ret) {refresh : ℕ}
    (hflight : s.inFlight = some refresh) :
    s'.inFlight = some refresh ∨
      s'.inFlight = none ∧ ∃ x, ret = some ⟨refresh, now, x⟩ ∧ s.result refresh = some x := by
  cases h with
  | @retire _ r x _ hresult hr =>
    obtain rfl : r = refresh := Option.some.inj (hr.symm.trans hflight)
    rw [retire_of_inFlight hflight]
    exact .inr ⟨rfl, x, rfl, hresult⟩
  | start _ _ hnone =>
    rw [hnone] at hflight
    cases hflight
  | _ => exact .inl hflight

/-- A refresh starts only where no value is fresh and none is in flight. -/
theorem Move.started {ret : Option (Retirement α)} (h : Move now s e s' ret) :
    s'.started = s.started ∨ s'.started = s.started + 1 ∧ s.fresh? now = none ∧
      s.inFlight = none ∧ ∃ caller, e = .call caller ∧ s'.phase caller = .attached s.started := by
  cases h with
  | @start caller _ hstale hflight =>
    exact .inr ⟨rfl, hstale, hflight, caller, rfl, phase_setPhase_self _ _ _⟩
  | retire _ _ hflight =>
    rw [retire_of_inFlight hflight]
    exact .inl rfl
  | _ => exact .inl rfl

/-- With no refresh in flight only a call changes anything but results and callers. -/
theorem Move.idle {ret : Option (Retirement α)} (h : Move now s e s' ret)
    (hflight : s.inFlight = none) (hcall : ∀ caller, e ≠ .call caller) :
    s'.inFlight = none ∧ s'.stored = s.stored ∧ s'.started = s.started := by
  cases h with
  | serve | attach | start => exact absurd rfl (hcall _)
  | retire _ _ hr =>
    rw [hflight] at hr
    cases hr
  | _ => exact ⟨hflight, rfl, rfl⟩

theorem run_idle (hflight : s.inFlight = none) (hcall : ∀ e ∈ es, ∀ caller, e.2 ≠ .call caller) :
    (s.run es).inFlight = none ∧ (s.run es).stored = s.stored ∧
      (s.run es).started = s.started := by
  induction es generalizing s with
  | nil => exact ⟨hflight, rfl, rfl⟩
  | cons e es ih =>
    obtain ⟨hnone, hstored, hstarted⟩ :=
      (move_step e.1 s e.2).idle hflight (hcall e List.mem_cons_self)
    have hrest := ih hnone fun e' he' => hcall e' (List.mem_cons_of_mem _ he')
    rw [hstored, hstarted] at hrest
    exact hrest

/-- A caller that finds nothing fresh and nothing in flight starts a refresh. -/
theorem step_call_of_idle {caller : ℕ} (hphase : s.phase caller = .away)
    (hstale : s.fresh? now = none) (hflight : s.inFlight = none) :
    (s.step now (.call caller)).started = s.started + 1 ∧
      (s.step now (.call caller)).inFlight = some s.started := by
  simp [step, call, hphase, hstale, hflight, SingleFlight.setPhase]

theorem step_call_of_fresh {caller : ℕ} {a : α} (haway : s.phase caller = .away)
    (hfresh : s.fresh? now = some a) :
    (s.step now (.call caller)).phase caller = .returned (.ok a) := by
  simp [step, call, haway, hfresh]

theorem step_call_of_inFlight {caller r : ℕ} (haway : s.phase caller = .away)
    (hstale : s.fresh? now = none) (hflight : s.inFlight = some r) :
    s.step now (.call caller) = s.setPhase caller (.attached r) := by
  simp [step, call, haway, hstale, hflight]

theorem phase_step_call_of_idle {caller : ℕ} (haway : s.phase caller = .away)
    (hstale : s.fresh? now = none) (hflight : s.inFlight = none) :
    (s.step now (.call caller)).phase caller = .attached s.started := by
  simp [step, call, haway, hstale, hflight]

/-- A caller that returns from its call has been served a value that was fresh. -/
theorem fresh?_of_served {caller : ℕ} {x : Except Fault α} (hphase : s.phase caller = .away)
    (hserved : (s.step now (.call caller)).phase caller = .returned x) :
    ∃ a, x = .ok a ∧ s.fresh? now = some a := by
  have hmove := move_step now s (.call caller)
  generalize s.step now (.call caller) = s', s.retirement? now (.call caller) = ret at hmove hserved
  cases hmove with
  | @serve _ a _ hfresh =>
    rw [phase_setPhase_self] at hserved
    exact ⟨a, (CallerPhase.returned.inj hserved).symm, hfresh⟩
  | attach | start =>
    rw [phase_setPhase_self] at hserved
    cases hserved
  | stay =>
    rw [hphase] at hserved
    cases hserved

/-! ## The laws -/

/-- The laws of a cache `s` that some events have led to, whatever happens to it next. -/
structure Disciplined (ttl : ℕ) (es : List (ℕ × CacheEvent α)) (s : SingleFlight α) : Prop where
  /-- A refresh starts, by a call, only if nothing stored is fresh, none is recorded in flight and
  none is unfinished. -/
  starts : ∀ now e, (s.step now e).started ≠ s.started →
    (∃ caller, e = .call caller) ∧ (s.step now e).started = s.started + 1 ∧
      (∀ v ∈ s.stored, v.2 ≤ now) ∧ s.inFlight = none ∧ ∀ r, ¬ s.Unfinished r
  unfinished_unique : ∀ r r', s.Unfinished r → s.Unfinished r' → r = r'
  /-- Callers that were attached to one refresh, whenever they were, return the same. -/
  shared : ∀ c c' r x x', Joined ttl es c r → Joined ttl es c' r →
    s.phase c = .returned x → s.phase c' = .returned x' → x = x'
  /-- The stored value is that of the last refresh retired that gave one. -/
  stored_eq : s.stored = lastValue ttl ((new ttl).retirements es)
  /-- Refreshes are retired in the order in which they start, so none is retired twice. -/
  rising : (((new ttl).retirements es).map Retirement.refresh).Pairwise (· < ·)
  /-- The stored value changes only when the refresh in flight is retired, having given a value. -/
  stores : ∀ now e, (s.step now e).stored ≠ s.stored → ∃ r a, s.inFlight = some r ∧
    s.retirement? now e = some ⟨r, now, .ok a⟩ ∧ (s.step now e).stored = some (a, now + ttl)
  /-- The refresh in flight is unregistered only by being retired. -/
  unregisters : ∀ now e r, s.inFlight = some r → (s.step now e).inFlight ≠ some r →
    (s.step now e).inFlight = none ∧
      ∃ x, s.retirement? now e = some ⟨r, now, x⟩ ∧ s.result r = some x
  /-- A caller that comes back late touches neither the store nor the refresh in flight. -/
  late : ∀ now c r, s.phase c = .attached r → s.inFlight ≠ some r →
    (s.step now (.resume c)).stored = s.stored ∧ (s.step now (.resume c)).inFlight = s.inFlight
  /-- A value is served from the store only before `ttl` has passed since it was retired. -/
  serves : ∀ now c x, s.phase c = .away → (s.step now (.call c)).phase c = .returned x →
    ∃ ret ∈ (new ttl).retirements es, ∃ a, x = .ok a ∧ ret.outcome = .ok a ∧ now < ret.time + ttl
  /-- A failed refresh that is retired leaves the store alone, and the next caller starts a new
  one. -/
  fails : ∀ now c r f, (∀ e ∈ es, e.1 ≤ now) → s.phase c = .attached r → s.inFlight = some r →
    s.result r = some (.error f) →
      (s.step now (.resume c)).stored = s.stored ∧ (s.step now (.resume c)).inFlight = none ∧
        ∀ es' now' c', (∀ e ∈ es', ∀ caller, e.2 ≠ .call caller) → now ≤ now' →
          ((s.step now (.resume c)).run es').phase c' = .away →
            (((s.step now (.resume c)).run es').step now' (.call c')).started = s.started + 1 ∧
              (((s.step now (.resume c)).run es').step now' (.call c')).inFlight = some s.started

/-- A failed refresh that is retired leaves the store alone and no refresh in flight. -/
theorem step_resume_of_error (now : ℕ) {c r : ℕ} {f : Fault} (hphase : s.phase c = .attached r)
    (hflight : s.inFlight = some r) (hresult : s.result r = some (.error f)) :
    (s.step now (.resume c)).stored = s.stored ∧ (s.step now (.resume c)).inFlight = none ∧
      (s.step now (.resume c)).started = s.started := by
  simp [step, resume, hphase, hresult, retire_of_inFlight hflight, SingleFlight.setPhase]

/-- A caller whose refresh has ended returns what it gave. -/
theorem phase_step_resume (now : ℕ) {c r : ℕ} {x : Except Fault α}
    (hphase : s.phase c = .attached r) (hresult : s.result r = some x) :
    (s.step now (.resume c)).phase c = .returned x := by
  simp [step, resume, hphase, hresult]

theorem step_resume_late {c r : ℕ} (hphase : s.phase c = .attached r)
    (hflight : s.inFlight ≠ some r) :
    (s.step now (.resume c)).stored = s.stored ∧
      (s.step now (.resume c)).inFlight = s.inFlight := by
  cases hresult : s.result r with
  | none => simp [step, resume, hphase, hresult]
  | some x => simp [step, resume, hphase, hresult, retire, hflight, SingleFlight.setPhase]

/-- **One refresh at a time.** Whatever callers, refreshes and the clock have done, a refresh starts
only where there is nothing fresh and none is in flight, so at most one is unfinished; those who
were attached to it return the same; the store changes only, and at most once for each refresh, when
the one in flight is retired with a value, which is served for less than `ttl` from then on; and one
that failed makes way for the next caller's. -/
theorem run_disciplined (hclock : Clocked es) : Disciplined ttl es ((new ttl).run es) := by
  obtain ⟨last, hlast⟩ : ∃ last, ∀ e ∈ es, e.1 ≤ last :=
    ⟨_, fun e he => List.le_max_of_le' 0 (List.mem_map_of_mem he) (Nat.le_refl _)⟩
  have hsound : ((new ttl).run es).Sound ttl last ((new ttl).retirements es) :=
    sound_run hclock hlast
  generalize hs : (new ttl).run es = s at hsound
  refine ⟨fun now e hstarted => ?_, fun _ _ => hsound.unfinished_unique, ?_, hsound.stored_eq,
    hsound.rising, fun now e hstored => ?_, fun now e r hflight hgone => ?_,
    fun now c r => step_resume_late, fun now c x hphase hserved => ?_, ?_⟩
  · obtain hsame | ⟨hnext, hstale, hflight, caller, rfl, -⟩ := (move_step now s e).started
    · exact absurd hsame hstarted
    · refine ⟨⟨caller, rfl⟩, hnext, fresh?_eq_none_iff.mp hstale, hflight, fun r hr => ?_⟩
      have hin := hsound.unfinished r hr
      rw [hflight] at hin
      cases hin
  · subst hs
    intro c c' r x x' hc hc' hx hx'
    exact Option.some.inj ((hc.result hx).symm.trans (hc'.result hx'))
  · obtain hsame | ⟨r, a, hflight, hret, hnew, -⟩ := (move_step now s e).stored
    · exact absurd hsame hstored
    · exact ⟨r, a, hflight, hret, hsound.ttl_eq ▸ hnew⟩
  · obtain hsame | hretired := (move_step now s e).inFlight hflight
    · exact absurd hsame hgone
    · exact hretired
  · obtain ⟨a, rfl, hfresh⟩ := fresh?_of_served hphase hserved
    obtain ⟨expiry, hstored, hlt⟩ := stored_of_fresh? hfresh
    obtain ⟨ret, hret, hvalue, rfl⟩ := exists_of_lastValue (hsound.stored_eq.symm.trans hstored)
    exact ⟨ret, hret, a, rfl, hvalue, hlt⟩
  · intro now c r f hnow hphase hflight hresult
    obtain ⟨hstored, hnone, hstarted⟩ := step_resume_of_error now hphase hflight hresult
    refine ⟨hstored, hnone, fun es' now' c' hcall hlater haway => ?_⟩
    obtain ⟨hnone', hstored', hstarted'⟩ := run_idle hnone hcall
    have hstale : ((s.step now (.resume c)).run es').fresh? now' = none := by
      rw [fresh?_eq_none_iff, hstored', hstored]
      have hexpired := (hs ▸ sound_run hclock hnow : s.Sound ttl now _).expired r hflight
      exact fun v hv => Nat.le_trans (hexpired v hv) hlater
    have hstart := step_call_of_idle haway hstale hnone'
    rwa [hstarted', hstarted] at hstart

/-- Two callers join a refresh and a third gives up. The value that it gives is stored by the first
who comes back, and has expired when a caller starts another refresh, which fails; the other caller
of the first refresh comes back while it is in flight. -/
def sampleEvents : List (ℕ × CacheEvent ℕ) :=
  [(0, .call 0), (1, .call 1), (1, .call 2), (2, .drop 2), (3, .finish 0 (.ok 7)), (4, .resume 0),
    (13, .call 3), (14, .call 4), (15, .resume 1), (16, .finish 1 (.error .timeout)),
    (16, .resume 4)]

theorem run_disciplined_sample :
    Clocked sampleEvents ∧ (((new 10).retirements sampleEvents).map Retirement.refresh) = [0, 1] ∧
      Disciplined 10 sampleEvents ((new 10).run sampleEvents) :=
  have hclock : Clocked sampleEvents := by unfold Clocked; decide
  ⟨hclock, rfl, run_disciplined hclock⟩

end SingleFlight

end MarketFeed
