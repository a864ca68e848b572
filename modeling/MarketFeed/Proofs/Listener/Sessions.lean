import Mathlib.Data.List.Chain
import MarketFeed.Listener.Loop
import MarketFeed.Proofs.Listener.Opening

/-!
# What a listener does over its sessions

A run of a listener is a sequence of sessions. Each finds out the products anew and subscribes to
just those; the next one begins as the outcome of the one before it asks, at once or after a pause,
and all that the listener does between two sessions is to count and to show that.

## Main definitions

* `Listener.run`: what a listener makes of what it is told
* `Listener.Punctual`: the end of every pause is told on time
* `Stretch`: what is told to one session of a listener, and what comes of it
* `Stretch.Precedes`: when the next session begins
* `Phase`, `Phase.Moves`: where a listener stands, by its sessions, and how it goes on
* `Phase.Timeline`: the sessions of a listener that is told one thing after another
* `Listener.Recounted`: what a listener does, by its sessions

## Main results

* `Phase.Moves.step`: a step of a listener is one of its sessions
* `Phase.Timeline.log_eq`, `Phase.Timeline.leads`, `Phase.Timeline.returns`: what the sessions of a
  run do, when they begin, and when they are the last
* `Listener.exists_recounted`: a run is a sequence of sessions
-/

namespace MarketFeed

variable {timing : Timing} {m : Moment} {ms ms' : List Moment}

/-! ## Runs -/

namespace Listener

variable {l : Listener}

/-- What a listener makes of what it is told: where it stands then, and what it has done when. -/
def run (timing : Timing) (l : Listener) : List Moment → Listener × List (ℕ × Act)
  | [] => (l, [])
  | m :: ms =>
    let r := l.step timing m.consumer m.now m.signal
    let r' := r.1.run timing ms
    (r'.1, r.2.map (m.now, ·) ++ r'.2)

/-- The end of every pause is told on time: in a pause, nothing is told later than at its end. -/
def Punctual (timing : Timing) (l : Listener) : List Moment → Prop
  | [] => True
  | m :: ms => (∀ d, l = .cooling d → m.now ≤ d) ∧
      (l.step timing m.consumer m.now m.signal).1.Punctual timing ms

theorem run_append (l : Listener) (ms ms' : List Moment) :
    l.run timing (ms ++ ms') =
      (((l.run timing ms).1.run timing ms').1,
        (l.run timing ms).2 ++ ((l.run timing ms).1.run timing ms').2) := by
  induction ms generalizing l with
  | nil => rfl
  | cons m ms ih => simp [run, ih]

end Listener

/-! ## Sessions -/

/-- A session of a listener: when it began, and what it was told, the last of which ended it if it
has ended. -/
structure Stretch where
  begun : ℕ
  told : List Moment

namespace Stretch

variable (timing : Timing) (x y : Stretch)

/-- where the session stands -/
def session : Session := (Session.start.1.run timing x.told).1

/-- how the session ended, if it has -/
def outcome? : Option Outcome := (x.session timing).outcome?

/-- when the session ended, if it has -/
def ended : ℕ := (x.told.getLast?.map Moment.now).getD x.begun

/-- what the session has done when -/
def log : List (ℕ × Act) :=
  Session.start.2.map (x.begun, ·) ++ (Session.start.1.run timing x.told).2

/-- what a listener does about the end of a session -/
def sequel : Outcome → List Act
  | .reconnectNow => [.restart .liveness]
  | .reconnectAfterCooldown => [.restart .cooldown, .publish .reconnectWait]
  | .terminate => [.publish .disconnected]

/-- what the session has done when, and what the listener has done about its end -/
def fullLog : List (ℕ × Act) :=
  x.log timing ++ (x.outcome? timing).toList.flatMap fun o => (sequel o).map (x.ended, ·)

/-- The next session begins at once after the loss of the peer, and after a pause when something
else has failed: not before its end, and just then if that is told on time. No session follows on
one that the loss of the consumer has ended. -/
def Precedes (onTime : Prop) (x y : Stretch) : Prop :=
  x.outcome? timing = some .reconnectNow ∧ y.begun = x.ended ∨
    x.outcome? timing = some .reconnectAfterCooldown ∧ x.ended + timing.cooldown ≤ y.begun ∧
      (onTime → y.begun = x.ended + timing.cooldown)

/-- a session that begins -/
def fresh (now : ℕ) : Stretch := ⟨now, []⟩

/-- a session that is told one thing more -/
def tell (m : Moment) : Stretch := ⟨x.begun, x.told ++ [m]⟩

variable {timing x y}

@[simp] theorem begun_tell (m : Moment) : (x.tell m).begun = x.begun := rfl

@[simp] theorem ended_tell (m : Moment) : (x.tell m).ended = m.now := by
  simp [ended, tell]

theorem session_tell (m : Moment) :
    (x.tell m).session timing = ((x.session timing).step timing m.consumer m.now m.signal).1 := by
  rw [session, tell, Session.run_append]
  rfl

theorem log_tell (m : Moment) :
    (x.tell m).log timing = x.log timing ++
      ((x.session timing).step timing m.consumer m.now m.signal).2.map (m.now, ·) := by
  rw [log, tell, Session.run_append, ← List.append_assoc]
  simp only [Session.run, List.append_nil]
  rfl

theorem fullLog_of_going (h : x.outcome? timing = none) : x.fullLog timing = x.log timing := by
  rw [fullLog, h, Option.toList_none, List.flatMap_nil, List.append_nil]

end Stretch

/-! ## Timelines -/

/-- Where a listener stands, by its sessions. -/
inductive Phase (timing : Timing)
  /-- no session has begun yet -/
  | idle
  /-- the next session begins at the deadline -/
  | cooling (deadline : ℕ)
  | session (x : Stretch) (going : x.outcome? timing = none)
  /-- no session follows any more -/
  | ended

namespace Phase

variable {p p' q : Phase timing} {xs ys : List Stretch} {onTime : Prop}

/-- A session begins. -/
def fresh (timing : Timing) (now : ℕ) : Phase timing := .session (.fresh now) rfl

/-- What follows on the end of a session: another one at once, another one after a pause, or
nothing. -/
def after (timing : Timing) (now : ℕ) : Outcome → Phase timing
  | .reconnectNow => .fresh timing now
  | .reconnectAfterCooldown => .cooling (now + timing.cooldown)
  | .terminate => .ended

/-- the session that is going on, if one is -/
def going : Phase timing → List Stretch
  | .session x _ => [x]
  | .idle | .cooling _ | .ended => []

/-- where the listener stands -/
def listener : Phase timing → Listener
  | .idle => .idle
  | .cooling d => .cooling d
  | .session x _ => .session (x.session timing)
  | .ended => .stopped (.error .consumerGone)

/-- Where a listener stands after it has been told something, and the session that ends with
that, if one does. -/
inductive Moves : Phase timing → Moment → Phase timing → List Stretch → Prop
  /-- before the first session only the time matters -/
  | awaits {m : Moment} (h : m.signal ≠ .tick) : Moves .idle m .idle []
  | starts {m : Moment} (h : m.signal = .tick) : Moves .idle m (.fresh timing m.now) []
  | rests {d : ℕ} {m : Moment} (h : m.signal = .tick → m.now < d) :
    Moves (.cooling d) m (.cooling d) []
  /-- a pause is over at its deadline -/
  | resumes {d : ℕ} {m : Moment} (h : m.signal = .tick) (hdue : d ≤ m.now) :
    Moves (.cooling d) m (.fresh timing m.now) []
  | goesOn {x : Stretch} {going : x.outcome? timing = none} {m : Moment}
    (h : (x.tell m).outcome? timing = none) :
    Moves (.session x going) m (.session (x.tell m) h) []
  | ends {x : Stretch} {going : x.outcome? timing = none} {m : Moment} {o : Outcome}
    (h : (x.tell m).outcome? timing = some o) :
    Moves (.session x going) m (.after timing m.now o) [x.tell m]
  | ended {m : Moment} : Moves .ended m .ended []

theorem exists_moves (p : Phase timing) (m : Moment) : ∃ p' xs, p.Moves m p' xs := by
  cases p with
  | idle =>
    by_cases htick : m.signal = .tick
    · exact ⟨_, _, .starts htick⟩
    · exact ⟨_, _, .awaits htick⟩
  | cooling d =>
    by_cases hdue : m.signal = .tick ∧ d ≤ m.now
    · exact ⟨_, _, .resumes hdue.1 hdue.2⟩
    · exact ⟨_, _, .rests fun htick => not_le.mp fun hle => hdue ⟨htick, hle⟩⟩
  | session x going =>
    cases hend : (x.tell m).outcome? timing with
    | none => exact ⟨_, _, .goesOn hend⟩
    | some o => exact ⟨_, _, .ends hend⟩
  | ended => exact ⟨_, _, .ended⟩

theorem Moves.unique (h : p.Moves m p' xs) (h' : p.Moves m q ys) : p' = q ∧ xs = ys := by
  cases h with
  | awaits h =>
    cases h' with
    | awaits => exact ⟨rfl, rfl⟩
    | starts htick => exact absurd htick h
  | starts htick =>
    cases h' with
    | awaits h => exact absurd htick h
    | starts => exact ⟨rfl, rfl⟩
  | rests hearly =>
    cases h' with
    | rests => exact ⟨rfl, rfl⟩
    | resumes htick hdue => exact absurd (hearly htick) hdue.not_gt
  | resumes htick hdue =>
    cases h' with
    | rests hearly => exact absurd (hearly htick) hdue.not_gt
    | resumes => exact ⟨rfl, rfl⟩
  | goesOn h =>
    cases h' with
    | goesOn => exact ⟨rfl, rfl⟩
    | ends hend => exact nomatch h.symm.trans hend
  | ends hend =>
    cases h' with
    | goesOn h => exact nomatch h.symm.trans hend
    | ends hend' =>
      obtain rfl := Option.some.inj (hend.symm.trans hend')
      exact ⟨rfl, rfl⟩
  | ended =>
    cases h' with
    | ended => exact ⟨rfl, rfl⟩

/-- The sessions of a listener that is told one thing after another: those that end, and the one
that is going on at last. -/
inductive Timeline : Phase timing → List Moment → List Stretch → Prop
  | nil (p : Phase timing) : Timeline p [] p.going
  | cons {p p' : Phase timing} {m : Moment} {ms : List Moment} {xs ys : List Stretch}
    (h : p.Moves m p' xs) (rest : Timeline p' ms ys) : Timeline p (m :: ms) (xs ++ ys)

theorem exists_timeline (p : Phase timing) (ms : List Moment) : ∃ xs, p.Timeline ms xs := by
  induction ms generalizing p with
  | nil => exact ⟨_, .nil p⟩
  | cons m ms ih =>
    obtain ⟨p', xs, hmoves⟩ := p.exists_moves m
    obtain ⟨ys, hrest⟩ := ih p'
    exact ⟨_, .cons hmoves hrest⟩

/-- What a listener is told determines its sessions. -/
theorem Timeline.unique (h : p.Timeline ms xs) (h' : p.Timeline ms ys) : xs = ys := by
  induction h generalizing ys with
  | nil p =>
    cases h' with
    | nil => rfl
  | cons hmoves rest ih =>
    cases h' with
    | cons hmoves' rest' =>
      obtain ⟨rfl, rfl⟩ := hmoves.unique hmoves'
      rw [ih rest']

/-! ## When sessions begin -/

/-- When the next session begins, or has begun. -/
def Admits (onTime : Prop) (y : Stretch) : Phase timing → Prop
  | .idle => True
  | .cooling d => d ≤ y.begun ∧ (onTime → y.begun = d)
  | .session x _ => y.begun = x.begun
  | .ended => False

/-- Sessions follow on each other, the first of them on what has been before. -/
structure Leads (onTime : Prop) (p : Phase timing) (xs : List Stretch) : Prop where
  chain : xs.IsChain (Stretch.Precedes timing onTime)
  head : ∀ y ∈ xs.head?, p.Admits onTime y

theorem leads_going (onTime : Prop) (p : Phase timing) : p.Leads onTime p.going := by
  cases p with
  | session x going => exact ⟨.singleton _, fun y hy => congrArg _ (Option.some.inj hy).symm⟩
  | idle | cooling | ended => exact ⟨.nil, nofun⟩

/-- The next session begins when the end of the last asks for it. -/
theorem Admits.precedes {x y : Stretch} {o : Outcome} (h : (after timing x.ended o).Admits onTime y)
    (hend : x.outcome? timing = some o) : x.Precedes timing onTime y := by
  cases o with
  | reconnectNow => exact .inl ⟨hend, h⟩
  | reconnectAfterCooldown => exact .inr ⟨hend, h⟩
  | terminate => exact h.elim

/-- What is told on time keeps the sessions in order. -/
theorem Moves.leads (h : p.Moves m p' xs)
    (hpunctual : onTime → ∀ d, p.listener = .cooling d → m.now ≤ d) (hys : p'.Leads onTime ys) :
    p.Leads onTime (xs ++ ys) := by
  cases h with
  | awaits | starts => exact ⟨hys.chain, fun _ _ => trivial⟩
  | rests | ended => exact hys
  | resumes htick hdue =>
    refine ⟨hys.chain, fun y hy => ?_⟩
    have hbegun : y.begun = m.now := hys.head y hy
    rw [Admits, hbegun]
    exact ⟨hdue, fun honTime => (hpunctual honTime _ rfl).antisymm hdue⟩
  | goesOn => exact ⟨hys.chain, hys.head⟩
  | ends hend =>
    rename_i x going o
    refine ⟨hys.chain.cons fun y hy => ?_, fun y hy => ?_⟩
    · refine Admits.precedes ?_ hend
      rw [x.ended_tell]
      exact hys.head y hy
    · obtain rfl := Option.some.inj hy
      exact x.begun_tell m

end Phase

/-! ## What a listener does -/

namespace Listener

theorem step_session {s : Session} (h : m.signal ≠ .cancelled) :
    (Listener.session s).step timing m.consumer m.now m.signal =
      settle timing m.now (s.step timing m.consumer m.now m.signal) := by
  unfold step
  cases hsignal : m.signal with
  | cancelled => exact absurd hsignal h
  | _ => rfl

theorem step_idle_of_ne (h : m.signal ≠ .tick) (hsignal : m.signal ≠ .cancelled) :
    idle.step timing m.consumer m.now m.signal = (idle, []) := by
  cases htold : m.signal with
  | tick => exact absurd htold h
  | cancelled => exact absurd htold hsignal
  | _ => rfl

theorem step_cooling_tick {d : ℕ} (h : m.signal = .tick) :
    (cooling d).step timing m.consumer m.now m.signal =
      if d ≤ m.now then Listener.begin else (cooling d, []) := by
  rw [h]
  rfl

theorem step_cooling_of_early {d : ℕ} (h : m.signal = .tick → m.now < d)
    (hsignal : m.signal ≠ .cancelled) :
    (cooling d).step timing m.consumer m.now m.signal = (cooling d, []) := by
  cases htold : m.signal with
  | tick => rw [← htold, step_cooling_tick htold, if_neg (h htold).not_ge]
  | cancelled => exact absurd htold hsignal
  | _ => rfl

end Listener

namespace Phase

variable {p p' : Phase timing} {xs : List Stretch} {onTime : Prop}

/-- What a listener does about the end of a session, and then for the next one. -/
theorem next_eq (timing : Timing) (now : ℕ) (o : Outcome) :
    (Listener.next timing now o).1 = (after timing now o).listener ∧
      (Listener.next timing now o).2.map (now, ·) = (Stretch.sequel o).map (now, ·) ++
        (after timing now o).going.flatMap (Stretch.fullLog timing) := by
  cases o <;> exact ⟨rfl, rfl⟩

/-- **A listener that is told something goes on as its sessions do**, and what it does is done by
a session, or about the end of one. -/
theorem Moves.step (h : p.Moves m p' xs) (hsignal : m.signal ≠ .cancelled) :
    ∃ acts, p.listener.step timing m.consumer m.now m.signal = (p'.listener, acts) ∧
      p.going.flatMap (Stretch.fullLog timing) ++ acts.map (m.now, ·) =
        (xs ++ p'.going).flatMap (Stretch.fullLog timing) := by
  cases h with
  | awaits h => exact ⟨[], Listener.step_idle_of_ne h hsignal, rfl⟩
  | rests hearly => exact ⟨[], Listener.step_cooling_of_early hearly hsignal, rfl⟩
  | ended => exact ⟨[], rfl, rfl⟩
  | starts htick => exact ⟨Listener.begin.2, by rw [htick]; rfl, rfl⟩
  | resumes htick hdue =>
    exact ⟨Listener.begin.2, (Listener.step_cooling_tick htick).trans (if_pos hdue), rfl⟩
  | goesOn hgoing =>
    rename_i x going
    refine ⟨((x.session timing).step timing m.consumer m.now m.signal).2, ?_, ?_⟩
    · rw [listener, Listener.step_session hsignal, Listener.settle, ← x.session_tell]
      rw [Stretch.outcome?] at hgoing
      rw [hgoing]
      rfl
    · rw [Phase.going, Phase.going, List.nil_append, List.flatMap_singleton,
        List.flatMap_singleton, Stretch.fullLog_of_going going, Stretch.fullLog_of_going hgoing,
        Stretch.log_tell]
  | ends hend =>
    rename_i x going o
    obtain ⟨hnext, hacts⟩ := next_eq timing m.now o
    refine ⟨((x.session timing).step timing m.consumer m.now m.signal).2 ++
      (Listener.next timing m.now o).2, ?_, ?_⟩
    · rw [listener, Listener.step_session hsignal, Listener.settle, ← x.session_tell, ← hnext]
      rw [Stretch.outcome?] at hend
      rw [hend]
    · rw [Phase.going, List.flatMap_singleton, Stretch.fullLog_of_going going, List.map_append,
        hacts, List.flatMap_append, List.flatMap_singleton, Stretch.fullLog, Stretch.log_tell,
        Stretch.ended_tell, hend, Option.toList_some, List.flatMap_singleton]
      simp only [List.append_assoc]

/-- All that a listener does is done by its sessions, or about their ends. -/
theorem Timeline.log_eq (h : p.Timeline ms xs) (hsignals : ∀ m ∈ ms, m.signal ≠ .cancelled) :
    p.going.flatMap (Stretch.fullLog timing) ++ (p.listener.run timing ms).2 =
      xs.flatMap (Stretch.fullLog timing) := by
  induction h with
  | nil p => rw [Listener.run, List.append_nil]
  | cons hmoves rest ih =>
    obtain ⟨hsignal, hsignals⟩ := List.forall_mem_cons.mp hsignals
    obtain ⟨acts, hstep, hlog⟩ := hmoves.step hsignal
    rw [Listener.run, hstep, ← List.append_assoc, hlog, List.flatMap_append, List.append_assoc,
      ih hsignals, List.flatMap_append]

/-- Sessions begin when they are asked for, be it that the end of every pause is told on time. -/
theorem Timeline.leads (h : p.Timeline ms xs) (hsignals : ∀ m ∈ ms, m.signal ≠ .cancelled)
    (hpunctual : onTime → p.listener.Punctual timing ms) : p.Leads onTime xs := by
  induction h with
  | nil p => exact leads_going onTime p
  | cons hmoves rest ih =>
    obtain ⟨hsignal, hsignals⟩ := List.forall_mem_cons.mp hsignals
    obtain ⟨acts, hstep, -⟩ := hmoves.step hsignal
    refine hmoves.leads (fun honTime => (hpunctual honTime).1) (ih hsignals fun honTime => ?_)
    have hrest := (hpunctual honTime).2
    rwa [hstep] at hrest

theorem Moves.eq_ended_iff (h : p.Moves m p' xs) :
    p' = .ended ↔ p = .ended ∨ ∃ x ∈ xs, x.outcome? timing = some .terminate := by
  cases h with
  | ends hend =>
    rename_i x going o
    cases o <;> simp [hend, after, fresh]
  | _ => simp [fresh]

/-- A listener stops only when a session has found the consumer gone. -/
theorem Timeline.returns (h : p.Timeline ms xs) (hsignals : ∀ m ∈ ms, m.signal ≠ .cancelled)
    (r : Except Fault Unit) :
    (p.listener.run timing ms).1 = .stopped r ↔
      r = .error .consumerGone ∧
        (p = .ended ∨ ∃ x ∈ xs, x.outcome? timing = some .terminate) := by
  induction h with
  | nil p =>
    cases p with
    | session x going => simp [listener, Phase.going, Listener.run, going]
    | idle | cooling | ended => simp [listener, Phase.going, Listener.run, eq_comm]
  | cons hmoves rest ih =>
    obtain ⟨hsignal, hsignals⟩ := List.forall_mem_cons.mp hsignals
    obtain ⟨acts, hstep, -⟩ := hmoves.step hsignal
    rw [Listener.run, hstep, ih hsignals, hmoves.eq_ended_iff, or_assoc]
    simp only [List.mem_append, or_and_right, exists_or]

end Phase

/-! ## The whole -/

namespace Listener

variable {l : Listener}

/-- the diffs that a log hands to the consumer -/
def deliveries (log : List (ℕ × Act)) : List Diff := log.filterMap fun a => a.2.diff?

/-- the outcome that a restart follows on -/
def outcomeBefore : Restart → Outcome
  | .liveness => .reconnectNow
  | .cooldown => .reconnectAfterCooldown

/-- What a listener does about what it is told, by its sessions. -/
structure Recounted (timing : Timing) (ms : List Moment) (xs : List Stretch) : Prop where
  /-- what is told determines the sessions: the first begins when a listener is first told the
  time, another one at once when the peer is lost, and another one when a pause is over -/
  timeline (ys : List Stretch) : (Phase.idle : Phase timing).Timeline ms ys ↔ ys = xs
  /-- all that is done is done by the sessions or about their ends -/
  log : (idle.run timing ms).2 = xs.flatMap (Stretch.fullLog timing)
  deliveries : deliveries (idle.run timing ms).2 =
    xs.flatMap fun x => Listener.deliveries (x.log timing)
  /-- each session finds out the products anew, and subscribes to just those -/
  opens : ∀ x ∈ xs, ∃ talk, (x.log timing).filterMap (fun a => a.2.call?) =
    (Session.progress x.told).calls ++ talk ∧ ∀ c ∈ talk, c.IsTalk
  failed : ∀ x ∈ xs, (Session.progress x.told).Failed →
    x.outcome? timing = some .reconnectAfterCooldown
  /-- each session begins when the outcome of the one before it asks -/
  waits : xs.IsChain (Stretch.Precedes timing (idle.Punctual timing ms))
  returns (r : Except Fault Unit) : (idle.run timing ms).1 = .stopped r ↔
    r = .error .consumerGone ∧ ∃ x ∈ xs, x.outcome? timing = some .terminate
  restarts (r : Restart) :
    (Counters.ofActs ((idle.run timing ms).2.map Prod.snd)).restarts r =
      xs.countP fun x => x.outcome? timing = some (outcomeBefore r)
  /-- a cancellation ends it with what has been delivered by then -/
  cancelled (hgoing : ∀ r, (idle.run timing ms).1 ≠ .stopped r) (now : ℕ) (consumer : Bool)
    (after more : List Moment) :
    (idle.run timing (ms ++ ⟨now, consumer, .cancelled⟩ :: after)).1 = .stopped (.ok ()) ∧
      Listener.deliveries (idle.run timing (ms ++ ⟨now, consumer, .cancelled⟩ :: after)).2 <+:
        Listener.deliveries (idle.run timing (ms ++ more)).2

/-- the acts of a session, without the times -/
theorem map_snd_log (x : Stretch) :
    (x.log timing).map Prod.snd = Session.performed timing x.told := by
  simp [Stretch.log, Session.performed, Session.acts, Function.comp_def]

/-- What a listener does about the end of a session hands nothing to the consumer. -/
theorem deliveries_fullLog (x : Stretch) :
    deliveries (x.fullLog timing) = deliveries (x.log timing) := by
  rw [Stretch.fullLog, deliveries, List.filterMap_append]
  rcases x.outcome? timing with - | o
  · simp [deliveries]
  · cases o <;> simp [deliveries, Stretch.sequel, Act.diff?]

theorem deliveries_flatMap (xs : List Stretch) :
    deliveries (xs.flatMap (Stretch.fullLog timing)) =
      xs.flatMap fun x => deliveries (x.log timing) := by
  induction xs with
  | nil => rfl
  | cons x xs ih =>
    rw [List.flatMap_cons, List.flatMap_cons, ← ih, ← deliveries_fullLog, deliveries,
      List.filterMap_append]
    rfl

/-- The end of a session is counted once, by its outcome. -/
theorem count_restart_fullLog (x : Stretch) (r : Restart) :
    ((x.fullLog timing).map Prod.snd).count (.restart r) =
      if x.outcome? timing = some (outcomeBefore r) then 1 else 0 := by
  rw [Stretch.fullLog, List.map_append, List.count_append, map_snd_log,
    Session.count_restart_performed]
  rcases x.outcome? timing with - | o
  · simp
  · cases o <;> cases r <;> simp [Stretch.sequel, outcomeBefore]

theorem count_restart_flatMap (xs : List Stretch) (r : Restart) :
    ((xs.flatMap (Stretch.fullLog timing)).map Prod.snd).count (.restart r) =
      xs.countP fun x => x.outcome? timing = some (outcomeBefore r) := by
  induction xs with
  | nil => rfl
  | cons x xs ih =>
    rw [List.flatMap_cons, List.map_append, List.count_append, ih, count_restart_fullLog,
      List.countP_cons, Nat.add_comm]
    simp

theorem step_cancelled (timing : Timing) (hgoing : ∀ r, l ≠ .stopped r) (consumer : Bool)
    (now : ℕ) :
    l.step timing consumer now .cancelled = (.stopped (.ok ()), [.publish .disconnected]) := by
  cases l with
  | stopped r => exact absurd rfl (hgoing r)
  | _ => rfl

theorem run_stopped (r : Except Fault Unit) (ms : List Moment) :
    (stopped r).run timing ms = (.stopped r, []) := by
  induction ms with
  | nil => rfl
  | cons m ms ih => simp [run, step, ih]

/-- A listener is a sequence of sessions: it delivers what they deliver, each finds out its
products anew, the next begins when the outcome of the last asks, and nothing but a consumer that
has gone, or a cancellation, ends it. -/
theorem exists_recounted (timing : Timing) (hsignals : ∀ m ∈ ms, m.signal ≠ .cancelled) :
    ∃ xs, Recounted timing ms xs := by
  obtain ⟨xs, h⟩ := (Phase.idle : Phase timing).exists_timeline ms
  have hlog : (idle.run timing ms).2 = xs.flatMap (Stretch.fullLog timing) := h.log_eq hsignals
  exact ⟨xs, {
    timeline := fun ys => ⟨fun hys => hys.unique h, fun hys => hys ▸ h⟩
    log := hlog
    deliveries := by rw [hlog, deliveries_flatMap]
    opens := fun x _ => by
      obtain ⟨talk, hcalls, htalk⟩ := Session.calls_performed timing x.told
      refine ⟨talk, ?_, htalk⟩
      rw [← hcalls, ← map_snd_log, List.filterMap_map]
      rfl
    failed := fun x _ => Session.outcome?_of_failed
    waits := (h.leads hsignals id).chain
    returns := fun r => (h.returns hsignals r).trans (by simp)
    restarts := fun r => by
      rw [hlog]
      exact count_restart_flatMap xs r
    cancelled := fun hgoing now consumer after more => by
      have hstep := step_cancelled timing hgoing consumer now
      rw [run_append, run_append, Listener.run, hstep, run_stopped]
      refine ⟨rfl, ?_⟩
      simp [Listener.deliveries, Act.diff?] }⟩

end Listener

end MarketFeed
