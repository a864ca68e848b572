import MarketFeed.Proofs.Listener.Listening

/-!
# How a session opens

A session finds out its products, connects and subscribes to just those products. If it cannot find
them out, or cannot connect, it has ended; once it has asked to subscribe, it asks for nothing more
than to receive, to ping and to close.

## Main definitions

* `Session.Progress`, `Session.progress`: how far a session comes with its opening
* `Session.TalksOn`: what a step of a session on an open connection does
* `Session.Opens`: what a session does about the rest of its opening

## Main results

* `Session.talksOn_step`: a session on an open connection only talks
* `Session.opens_connecting`, `Session.opens_resolving`: the opening, from the last call back
* `Session.calls_performed`: the calls of a session
* `Session.outcome?_of_failed`: a session whose opening has failed is followed by a pause
-/

namespace MarketFeed

/-- A call that belongs to an open connection. -/
def Call.IsTalk : Call → Prop
  | .receive | .ping | .close => True
  | _ => False

/-- An act that belongs to an open connection. -/
def Act.IsTalk : Act → Prop
  | .call c => c.IsTalk
  | .restart _ => False
  | _ => True

/-- A stage that has the request for the products behind it. -/
def Stage.IsTalking : Stage → Prop
  | .resolving | .connecting _ => False
  | _ => True

namespace Session

/-- How far a session comes with its opening. -/
inductive Progress
  | resolving
  /-- the products could not be found out -/
  | unresolved
  | connecting
  /-- the connection could not be made -/
  | unconnected
  /-- the connection was made, and products were found out before -/
  | connected (pairs : List String)

namespace Progress

/-- the calls that belong to an opening -/
def calls : Progress → List Call
  | .resolving | .unresolved => [.resolve]
  | .connecting | .unconnected => [.resolve, .connect]
  | .connected pairs => [.resolve, .connect, .send (subscribeText pairs)]

theorem resolve_cons_drop_calls (p : Progress) : .resolve :: p.calls.drop 1 = p.calls := by
  cases p <;> rfl

/-- The opening has failed. -/
def Failed : Progress → Prop
  | .unresolved | .unconnected => True
  | _ => False

end Progress

/-- How far a session comes that knows its products. -/
def progressFrom (pairs : List String) : List Moment → Progress
  | [] => .connecting
  | m :: ms =>
    match m.signal with
    | .connected (.ok _) => .connected pairs
    | .connected (.error _) => .unconnected
    | _ => progressFrom pairs ms

/-- How far a session comes with what it is told: the first answer to each of its calls counts. -/
def progress : List Moment → Progress
  | [] => .resolving
  | m :: ms =>
    match m.signal with
    | .resolved (.ok pairs) => progressFrom pairs ms
    | .resolved (.error _) => .unresolved
    | _ => progress ms

theorem drop_calls_progressFrom (pairs : List String) (ms : List Moment) :
    (progressFrom pairs ms).calls.drop 1 = .connect :: (progressFrom pairs ms).calls.drop 2 := by
  induction ms with
  | nil => rfl
  | cons m ms ih =>
    unfold progressFrom
    split
    · rfl
    · rfl
    · exact ih

variable {timing : Timing} {s : Session} {m : Moment} {ms : List Moment}

/-- A session goes on talking, and does nothing else. -/
def TalksOn (r : Session × List Act) : Prop := r.1.stage.IsTalking ∧ ∀ a ∈ r.2, a.IsTalk

theorem TalksOn.after {r : Session × List Act} {a : Act} (h : TalksOn r) (ha : a.IsTalk) :
    TalksOn (after a r) := ⟨h.1, List.forall_mem_cons.mpr ⟨ha, h.2⟩⟩

theorem talksOn_listen (now : ℕ) (s : Session) : TalksOn (s.listen timing now) := by
  simp [TalksOn, listen, Stage.IsTalking, Act.IsTalk, Call.IsTalk]

theorem talksOn_close (s : Session) (o : Outcome) : TalksOn (s.close o) := by
  simp [TalksOn, close, Stage.IsTalking, Act.IsTalk, Call.IsTalk]

theorem talksOn_onText (consumer : Bool) (now : ℕ) (raw : String) (s : Session) :
    TalksOn (s.onText timing consumer now raw) := by
  unfold onText
  split
  · exact talksOn_close s _
  · exact (talksOn_listen now s).after trivial
  · split
    · exact (talksOn_listen now s).after trivial
    · exact talksOn_close s _

theorem talksOn_meet (consumer : Bool) (now : ℕ) (s : Session) (w : Wait) (o : Occurrence) :
    TalksOn (s.meet timing consumer now w o) := by
  cases o with
  | frame raw => exact (talksOn_onText consumer now raw _).after trivial
  | control => exact talksOn_listen now s
  | hangUp | failure | unanswered => exact talksOn_close s _
  | silence | pinged => simp [TalksOn, meet, Stage.IsTalking, Act.IsTalk, Call.IsTalk]

/-- Once it knows the products and is connected, a session only talks. -/
theorem talksOn_step (h : s.stage.IsTalking) (m : Moment) :
    TalksOn (s.step timing m.consumer m.now m.signal) := by
  have hstay : TalksOn s.stay := ⟨h, List.forall_mem_nil _⟩
  cases hstage : s.stage with
  | resolving | connecting =>
    rw [hstage] at h
    exact h.elim
  | receiving w =>
    cases hheard : w.hear? m.now m.signal with
    | none => rwa [step_unheard hstage hheard]
    | some o =>
      rw [step_heard hstage hheard]
      exact talksOn_meet ..
  | subscribing =>
    unfold step
    rw [hstage]
    cases m.signal with
    | sent r => cases r with
      | ok => exact (talksOn_listen m.now _).after trivial
      | error f => exact talksOn_close s _
    | _ => exact hstay
  | closing o =>
    unfold step
    rw [hstage]
    cases m.signal with
    | closed => simp [TalksOn, enter, stay, Stage.IsTalking, Act.IsTalk]
    | _ => exact hstay
  | ended o =>
    unfold step
    rw [hstage]
    exact hstay

theorem isTalk_of_mem_acts (h : s.stage.IsTalking) {a : Act} (ha : a ∈ s.acts timing ms) :
    a.IsTalk := by
  induction ms generalizing s with
  | nil => exact nomatch ha
  | cons m ms ih =>
    rw [acts_cons, List.mem_append] at ha
    exact ha.elim ((talksOn_step h m).2 a) (ih (talksOn_step h m).1)

/-- What a session does whose opening has come so far: the rest of the calls of the opening, and
then it only talks. -/
structure Opens (timing : Timing) (s : Session) (ms : List Moment) (p : Progress)
    (rest : List Call) : Prop where
  acts : ∃ talk, s.acts timing ms = rest.map .call ++ talk ∧ ∀ a ∈ talk, a.IsTalk
  failed : p.Failed → (s.run timing ms).1.outcome? = some .reconnectAfterCooldown

theorem Opens.of_stay {p : Progress} {rest : List Call}
    (hstep : s.step timing m.consumer m.now m.signal = s.stay) (h : Opens timing s ms p rest) :
    Opens timing s (m :: ms) p rest := by
  refine ⟨?_, ?_⟩
  · rw [acts_cons, hstep]
    exact h.acts
  · rw [run_cons_fst, hstep]
    exact h.failed

theorem run_ended {o : Outcome} (h : s.stage = .ended o) (ms : List Moment) :
    s.run timing ms = (s, []) := by
  induction ms with
  | nil => rfl
  | cons m ms ih =>
    have hstep : s.step timing m.consumer m.now m.signal = (s, []) := by
      unfold step
      rw [h]
      rfl
    simp only [run, hstep, ih, List.map_nil, List.append_nil]

theorem opens_of_abandon {p : Progress}
    (hstep : s.step timing m.consumer m.now m.signal = s.abandon) (ms : List Moment) :
    Opens timing s (m :: ms) p [] := by
  have hend : (s.abandon.1).stage = .ended .reconnectAfterCooldown := rfl
  refine ⟨⟨[], ?_, List.forall_mem_nil _⟩, fun _ => ?_⟩
  · rw [acts_cons, hstep, acts, run_ended hend]
    rfl
  · rw [run_cons_fst, hstep, run_ended hend]
    rfl

/-- A session that knows its products connects and subscribes to them. -/
theorem opens_connecting {pairs : List String} (hstage : s.stage = .connecting pairs)
    (ms : List Moment) :
    Opens timing s ms (progressFrom pairs ms) ((progressFrom pairs ms).calls.drop 2) := by
  induction ms with
  | nil => exact ⟨⟨[], rfl, List.forall_mem_nil _⟩, nofun⟩
  | cons m ms ih =>
    obtain ⟨now, consumer, signal⟩ := m
    cases signal with
    | connected r =>
      cases r with
      | error f =>
        refine opens_of_abandon ?_ ms
        unfold step
        rw [hstage]
      | ok u =>
        have hstep : s.step timing consumer now (.connected (.ok u)) =
            ({ s with stage := .subscribing }, [.call (.send (subscribeText pairs))]) := by
          unfold step
          rw [hstage]
        have htalk : ∀ a ∈ ({ s with stage := .subscribing } : Session).acts timing ms, a.IsTalk :=
          fun a ha => isTalk_of_mem_acts (by trivial) ha
        refine ⟨⟨_, ?_, htalk⟩, nofun⟩
        rw [acts_cons, hstep]
        rfl
    | _ =>
      refine ih.of_stay ?_
      unfold step
      rw [hstage]

/-- A session finds out its products, connects and subscribes to them. -/
theorem opens_resolving (hstage : s.stage = .resolving) (ms : List Moment) :
    Opens timing s ms (progress ms) ((progress ms).calls.drop 1) := by
  induction ms with
  | nil => exact ⟨⟨[], rfl, List.forall_mem_nil _⟩, nofun⟩
  | cons m ms ih =>
    obtain ⟨now, consumer, signal⟩ := m
    cases signal with
    | resolved r =>
      cases r with
      | error f =>
        refine opens_of_abandon ?_ ms
        unfold step
        rw [hstage]
      | ok pairs =>
        have hstep : s.step timing consumer now (.resolved (.ok pairs)) =
            ({ s with stage := .connecting pairs }, [.call .connect]) := by
          unfold step
          rw [hstage]
        have hopens : Opens timing { s with stage := .connecting pairs } ms
            (progressFrom pairs ms) ((progressFrom pairs ms).calls.drop 2) :=
          opens_connecting rfl ms
        obtain ⟨talk, hacts, htalk⟩ := hopens.acts
        have hcalls : (progressFrom pairs ms).calls.drop 1 =
            .connect :: (progressFrom pairs ms).calls.drop 2 := drop_calls_progressFrom pairs ms
        refine ⟨⟨talk, ?_, htalk⟩, ?_⟩
        · rw [acts_cons, hstep, hacts, progress, hcalls]
          rfl
        · rw [run_cons_fst, hstep]
          exact hopens.failed
    | _ =>
      refine ih.of_stay ?_
      unfold step
      rw [hstage]

theorem opens_start (timing : Timing) (ms : List Moment) :
    Opens timing start.1 ms (progress ms) ((progress ms).calls.drop 1) := opens_resolving rfl ms

/-- **The calls of a session are those of its opening**, as far as it comes, and then it only
talks. -/
theorem calls_performed (timing : Timing) (ms : List Moment) :
    ∃ talk, (performed timing ms).filterMap Act.call? = (progress ms).calls ++ talk ∧
      ∀ c ∈ talk, c.IsTalk := by
  obtain ⟨talk, hacts, htalk⟩ := (opens_start timing ms).acts
  have hopening (cs : List Call) : (cs.map Act.call).filterMap Act.call? = cs := by
    rw [List.filterMap_map]
    exact List.filterMap_some
  refine ⟨talk.filterMap Act.call?, ?_, fun c hc => ?_⟩
  · rw [performed, hacts, List.filterMap_append, List.filterMap_append, hopening,
      ← List.append_assoc, ← (progress ms).resolve_cons_drop_calls]
    rfl
  · obtain ⟨a, ha, hcall⟩ := List.mem_filterMap.mp hc
    have := htalk a ha
    cases a with
    | call c' =>
      obtain rfl := Option.some.inj hcall
      exact this
    | _ => simp [Act.call?] at hcall

/-- A session whose opening has failed has ended, to be followed by another one after a pause. -/
theorem outcome?_of_failed (h : (progress ms).Failed) :
    (start.1.run timing ms).1.outcome? = some .reconnectAfterCooldown :=
  (opens_start timing ms).failed h

/-- A session does not count how it ends. -/
theorem count_restart_performed (timing : Timing) (ms : List Moment) (r : Restart) :
    (performed timing ms).count (.restart r) = 0 := by
  obtain ⟨talk, hacts, htalk⟩ := (opens_start timing ms).acts
  rw [List.count_eq_zero, performed, hacts]
  intro hmem
  rcases List.mem_append.mp hmem with h | h
  · simp [start] at h
  · rcases List.mem_append.mp h with h | h
    · obtain ⟨c, -, hc⟩ := List.mem_map.mp h
      cases hc
    · exact htalk _ h

end Session

end MarketFeed
