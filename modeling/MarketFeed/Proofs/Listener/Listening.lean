import MarketFeed.Listener.Session
import MarketFeed.Proofs.Feed.Classification
import MarketFeed.Service.Counters

/-!
# What a session delivers

Whatever a session is told while it receives, some of it is something that occurs on the connection
and the rest answers no call. What occurs is told apart without a look at the session: an observer
who knows the waits, and never gives up, hears all of it. The session hears the same up to the first
occurrence that ends it, takes each of them once and in order, and nothing behind.

## Main definitions

* `Moment`, `Session.run`: what a session is told over time, and what it does
* `Occurrence`, `Heard`: what occurs on a connection
* `Heard.ending?`: how a session ends that hears it
* `Wait.hearing`: what an observer hears
* `Session.Listened`: what a session that has subscribed does

## Main results

* `Session.step_lasting`, `Session.step_ending`: a step in the middle of receiving
* `Session.deeds_run`: the deeds of a session are those of what it hears
* `Session.run_listened`: a session delivers the diffs before the first ending, and ends as that
  says
-/

namespace MarketFeed

/-- Something that is told: when, what, and whether the consumer takes diffs at that time. -/
structure Moment where
  now : ℕ
  consumer : Bool
  signal : Signal

/-! ## Acts -/

/-- the call that an act is -/
def Act.call? : Act → Option Call
  | .call c => some c
  | _ => none

/-- the diff that an act hands to the consumer -/
def Act.diff? : Act → Option Diff
  | .deliver d => some d
  | _ => none

/-- An act that does more than to show a status. -/
def Act.isDeed : Act → Bool
  | .publish _ => false
  | _ => true

/-- the acts among some that do more than to show a status -/
def deeds (acts : List Act) : List Act := acts.filter Act.isDeed

@[simp] theorem deeds_append (acts acts' : List Act) :
    deeds (acts ++ acts') = deeds acts ++ deeds acts' := List.filter_append ..

/-- To show a status is nothing to those who look at deeds. -/
theorem filterMap_deeds {β : Type} {f : Act → Option β} (h : ∀ status, f (.publish status) = none)
    (acts : List Act) : (deeds acts).filterMap f = acts.filterMap f := by
  rw [deeds, List.filterMap_filter]
  refine List.filterMap_congr fun a _ => ?_
  cases a with
  | publish status => exact (h status).symm
  | _ => rfl

theorem count_ignore_deeds (acts : List Act) : (deeds acts).count .ignore = acts.count .ignore :=
  List.count_filter rfl

/-- Diffs are counted by their kind. -/
theorem countP_delivers (kind : String) (acts : List Act) :
    acts.countP (Act.delivers kind) =
      (acts.filterMap Act.diff?).countP fun d => d.kind == kind := by
  rw [List.countP_filterMap]
  refine List.countP_congr fun a _ => ?_
  cases a <;> rfl

/-! ## Runs -/

namespace Session

variable {timing : Timing} {s : Session} {ms ms' : List Moment} {m : Moment}

/-- What a session makes of what it is told: where it stands then, and what it has done when. -/
def run (timing : Timing) (s : Session) : List Moment → Session × List (ℕ × Act)
  | [] => (s, [])
  | m :: ms =>
    let r := s.step timing m.consumer m.now m.signal
    let r' := r.1.run timing ms
    (r'.1, r.2.map (m.now, ·) ++ r'.2)

/-- what a session does about what it is told -/
def acts (timing : Timing) (s : Session) (ms : List Moment) : List Act :=
  (s.run timing ms).2.map Prod.snd

/-- what a session has done from its beginning -/
def performed (timing : Timing) (ms : List Moment) : List Act :=
  start.2 ++ start.1.acts timing ms

theorem run_cons_fst :
    (s.run timing (m :: ms)).1 = ((s.step timing m.consumer m.now m.signal).1.run timing ms).1 :=
  rfl

theorem run_append (s : Session) (ms ms' : List Moment) :
    s.run timing (ms ++ ms') =
      (((s.run timing ms).1.run timing ms').1,
        (s.run timing ms).2 ++ ((s.run timing ms).1.run timing ms').2) := by
  induction ms generalizing s with
  | nil => rfl
  | cons m ms ih => simp [run, ih]

theorem acts_cons :
    s.acts timing (m :: ms) = (s.step timing m.consumer m.now m.signal).2 ++
      (s.step timing m.consumer m.now m.signal).1.acts timing ms := by
  simp [acts, run, Function.comp_def]

theorem acts_append (s : Session) (ms ms' : List Moment) :
    s.acts timing (ms ++ ms') = s.acts timing ms ++ (s.run timing ms).1.acts timing ms' := by
  rw [acts, run_append, List.map_append, acts, acts]

end Session

/-! ## Occurrences -/

/-- What can occur on a connection to a session that has subscribed. -/
inductive Occurrence
  | frame (raw : String)
  | control
  /-- the peer has closed the connection -/
  | hangUp
  /-- a receive or a ping has failed -/
  | failure (f : Fault)
  /-- no message has come in time -/
  | silence
  /-- the ping of a probe has been sent -/
  | pinged
  /-- nothing has answered a probe in time -/
  | unanswered

/-- what a receive gives, as an occurrence -/
def Occurrence.ofReceived : Except Fault Inbound → Occurrence
  | .ok (.text raw) => .frame raw
  | .ok .control => .control
  | .ok .closed => .hangUp
  | .error f => .failure f

/-- An occurrence, and whether the consumer takes diffs at that time. -/
structure Heard where
  consumer : Bool
  what : Occurrence

namespace Heard

/-- the diff of a frame that has one -/
def diff? (h : Heard) : Option Diff :=
  match h.what with
  | .frame raw => (Frame.meaning raw).toOption.join
  | _ => none

/-- A frame that means nothing for the book. -/
def isIgnored (h : Heard) : Bool :=
  match h.what with
  | .frame raw => match Frame.meaning raw with
    | .ok none => true
    | _ => false
  | _ => false

/-- How a session ends that hears this, if it does: a frame must be readable, and a diff needs
somebody who takes it. -/
def ending? (h : Heard) : Option Outcome :=
  match h.what with
  | .frame raw => match Frame.meaning raw with
    | .error _ => some .reconnectAfterCooldown
    | .ok none => none
    | .ok (some _) => if h.consumer then none else some .terminate
  | .hangUp | .unanswered => some .reconnectNow
  | .failure f => some (if f.IsLiveness then .reconnectNow else .reconnectAfterCooldown)
  | .control | .silence | .pinged => none

/-- the call that follows if the session goes on -/
def nextCall (h : Heard) : Call :=
  match h.what with
  | .silence => .ping
  | _ => .receive

/-- What a session does about an occurrence that does not end it. -/
def deeds (h : Heard) : List Act :=
  h.diff?.toList.map .deliver ++ (if h.isIgnored then [.ignore] else []) ++ [.call h.nextCall]

theorem filterMap_diff?_deeds (h : Heard) : h.deeds.filterMap Act.diff? = h.diff?.toList := by
  unfold deeds
  cases h.diff? <;> cases h.isIgnored <;> rfl

theorem filterMap_call?_deeds (h : Heard) : h.deeds.filterMap Act.call? = [h.nextCall] := by
  unfold deeds
  cases h.diff? <;> cases h.isIgnored <;> rfl

theorem count_ignore_deeds (h : Heard) : h.deeds.count .ignore = if h.isIgnored then 1 else 0 := by
  unfold deeds
  cases h.diff? <;> cases h.isIgnored <;> rfl

theorem filterMap_diff?_flatMap (hs : List Heard) :
    (hs.flatMap deeds).filterMap Act.diff? = hs.filterMap diff? := by
  induction hs with
  | nil => rfl
  | cons h hs ih =>
    rw [List.flatMap_cons, List.filterMap_append, ih, filterMap_diff?_deeds, List.filterMap_cons]
    cases h.diff? <;> rfl

theorem filterMap_call?_flatMap (hs : List Heard) :
    (hs.flatMap deeds).filterMap Act.call? = hs.map nextCall := by
  induction hs with
  | nil => rfl
  | cons h hs ih =>
    rw [List.flatMap_cons, List.filterMap_append, ih, filterMap_call?_deeds, List.map_cons]
    rfl

theorem count_ignore_flatMap (hs : List Heard) :
    (hs.flatMap deeds).count .ignore = hs.countP isIgnored := by
  induction hs with
  | nil => rfl
  | cons h hs ih =>
    rw [List.flatMap_cons, List.count_append, ih, count_ignore_deeds, List.countP_cons,
      Nat.add_comm]

section Frames

variable {consumer : Bool} {raw : String} {f : Fault} {d : Diff}

theorem ending?_error (h : Frame.meaning raw = .error f) :
    (Heard.mk consumer (.frame raw)).ending? = some .reconnectAfterCooldown := by
  simp [ending?, h]

theorem ending?_none (h : Frame.meaning raw = .ok none) :
    (Heard.mk consumer (.frame raw)).ending? = none := by
  simp [ending?, h]

theorem ending?_some (h : Frame.meaning raw = .ok (some d)) :
    (Heard.mk consumer (.frame raw)).ending? = if consumer then none else some .terminate := by
  simp [ending?, h]

theorem deeds_none (h : Frame.meaning raw = .ok none) :
    (Heard.mk consumer (.frame raw)).deeds = [.ignore, .call .receive] := by
  simp [deeds, diff?, isIgnored, nextCall, h, Except.toOption]

theorem deeds_some (h : Frame.meaning raw = .ok (some d)) :
    (Heard.mk consumer (.frame raw)).deeds = [.deliver d, .call .receive] := by
  simp [deeds, diff?, isIgnored, nextCall, h, Except.toOption]

end Frames

end Heard

/-- what comes before the first occurrence that ends a session -/
def lasting (hs : List Heard) : List Heard := hs.takeWhile fun h => h.ending?.isNone

theorem lasting_cons_of_none {h : Heard} {hs : List Heard} (hending : h.ending? = none) :
    lasting (h :: hs) = h :: lasting hs := by
  simp [lasting, hending]

theorem lasting_cons_of_some {h : Heard} {hs : List Heard} {o : Outcome}
    (hending : h.ending? = some o) : lasting (h :: hs) = [] := by
  simp [lasting, hending]

namespace Wait

/-- the call that a wait is for -/
def call : Wait → Call
  | .message _ | .answer _ => .receive
  | .probe _ => .ping

/-- What a signal is to somebody who waits; nothing if it answers no call and no wait has run
out. -/
def hear? (w : Wait) (now : ℕ) : Signal → Option Occurrence
  | .received r => match w with
    | .message _ | .answer _ => some (.ofReceived r)
    | .probe _ => none
  | .pinged r => match w, r with
    | .probe _, .ok _ => some .pinged
    | .probe _, .error f => some (.failure f)
    | _, _ => none
  | .tick =>
    if w.deadline ≤ now then
      match w with
      | .message _ => some .silence
      | .probe _ | .answer _ => some .unanswered
    else none
  | _ => none

theorem hear?_tick (w : Wait) (now : ℕ) :
    w.hear? now .tick =
      if w.deadline ≤ now then
        match w with
        | .message _ => some .silence
        | .probe _ | .answer _ => some .unanswered
      else none := rfl

/-- The wait behind an occurrence: a probe has a time of its own, the sending of the ping and the
answer to it together. -/
def next (timing : Timing) (now : ℕ) (w : Wait) : Occurrence → Wait
  | .silence => .probe (now + timing.ping)
  | .pinged => .answer w.deadline
  | _ => .message (now + timing.message)

/-- What an observer hears who starts with a wait and never gives up. -/
def hearing (timing : Timing) (w : Wait) : List Moment → List Heard
  | [] => []
  | m :: ms =>
    match w.hear? m.now m.signal with
    | none => w.hearing timing ms
    | some o => ⟨m.consumer, o⟩ :: (w.next timing m.now o).hearing timing ms

end Wait

/-! ## Steps -/

/-- how a session ends or has ended, once that is settled -/
def Stage.verdict? : Stage → Option Outcome
  | .closing o | .ended o => some o
  | _ => none

namespace Session

variable {timing : Timing} {s : Session} {w : Wait} {now : ℕ} {consumer : Bool} {signal : Signal}
  {o : Occurrence} {outcome : Outcome}

/-- What a session in the middle of receiving does about an occurrence. -/
def meet (timing : Timing) (consumer : Bool) (now : ℕ) (s : Session) (w : Wait) :
    Occurrence → Session × List Act
  | .frame raw => s.enter .receiving (onText timing consumer now raw)
  | .control => s.listen timing now
  | .hangUp => s.close .reconnectNow
  | .failure f => s.fail f
  | .silence => ({ s with stage := .receiving (.probe (now + timing.ping)) }, [.call .ping])
  | .pinged => ({ s with stage := .receiving (.answer w.deadline) }, [.call .receive])
  | .unanswered => s.fail .timeout

theorem step_tick (hstage : s.stage = .receiving w) :
    s.step timing consumer now .tick =
      if w.deadline ≤ now then s.onExpired timing now w else s.stay := by
  unfold step
  rw [hstage]
  cases w <;> rfl

/-- What is no occurrence changes nothing. -/
theorem step_unheard (hstage : s.stage = .receiving w) (h : w.hear? now signal = none) :
    s.step timing consumer now signal = (s, []) := by
  cases signal with
  | tick =>
    rw [step_tick hstage]
    refine if_neg fun hdue => ?_
    rw [Wait.hear?_tick, if_pos hdue] at h
    cases w <;> exact nomatch h
  | received r =>
    unfold step
    rw [hstage]
    cases w <;> first | rfl | exact nomatch h
  | pinged r =>
    unfold step
    rw [hstage]
    cases w <;> cases r <;> first | rfl | exact nomatch h
  | _ =>
    unfold step
    rw [hstage]
    cases w <;> rfl

theorem onReceived_eq_meet (r : Except Fault Inbound) :
    s.onReceived timing consumer now r = s.meet timing consumer now w (.ofReceived r) := by
  cases r with
  | error f => rfl
  | ok i => cases i <;> rfl

/-- An occurrence is met, whatever signal tells of it. -/
theorem step_heard (hstage : s.stage = .receiving w) (h : w.hear? now signal = some o) :
    s.step timing consumer now signal = s.meet timing consumer now w o := by
  cases signal with
  | tick =>
    rw [Wait.hear?_tick] at h
    rw [step_tick hstage]
    split at h
    case isTrue hdue =>
      rw [if_pos hdue]
      cases w <;> obtain rfl := Option.some.inj h <;> rfl
    case isFalse => exact nomatch h
  | received r =>
    unfold step
    rw [hstage]
    cases w with
    | probe => exact nomatch h
    | message | answer =>
      obtain rfl := Option.some.inj h
      exact onReceived_eq_meet r
  | pinged r =>
    unfold step
    rw [hstage]
    cases w with
    | probe => cases r <;> obtain rfl := Option.some.inj h <;> rfl
    | message | answer => exact nomatch h
  | _ => exact nomatch h

theorem onText_error {raw : String} {f : Fault} (h : Frame.meaning raw = .error f) :
    s.onText timing consumer now raw = s.close .reconnectAfterCooldown := by
  rw [Frame.meaning] at h
  simp only [onText, h, fail, Outcome.ofFault, if_neg (Frame.not_isLiveness_of_meaning h)]

theorem onText_none {raw : String} (h : Frame.meaning raw = .ok none) :
    s.onText timing consumer now raw = after .ignore (s.listen timing now) := by
  rw [Frame.meaning] at h
  simp only [onText, h]

theorem onText_some {raw : String} {d : Diff} (h : Frame.meaning raw = .ok (some d)) :
    s.onText timing consumer now raw =
      if consumer then after (.deliver d) (s.listen timing now) else s.close .terminate := by
  rw [Frame.meaning] at h
  simp only [onText, h]

/-- A session goes on behind an occurrence that does not end it. -/
theorem meet_lasting (timing : Timing) (now : ℕ) (s : Session) (w : Wait)
    (h : (Heard.mk consumer o).ending? = none) :
    (s.meet timing consumer now w o).1.stage = .receiving (w.next timing now o) ∧
      deeds (s.meet timing consumer now w o).2 = (Heard.mk consumer o).deeds := by
  cases o with
  | frame raw =>
    rcases hmeaning : Frame.meaning raw with f | _ | d
    · rw [Heard.ending?_error hmeaning] at h
      exact nomatch h
    · rw [Heard.deeds_none hmeaning, meet, enter, onText_none hmeaning]
      exact ⟨rfl, rfl⟩
    · rw [Heard.ending?_some hmeaning] at h
      cases consumer with
      | true =>
        rw [Heard.deeds_some hmeaning, meet, enter, onText_some hmeaning]
        exact ⟨rfl, rfl⟩
      | false => exact nomatch h
  | control | silence | pinged => exact ⟨rfl, rfl⟩
  | _ => exact nomatch h

/-- A session closes the connection behind an occurrence that ends it, and does nothing else. -/
theorem meet_ending (timing : Timing) (now : ℕ) (s : Session) (w : Wait)
    (h : (Heard.mk consumer o).ending? = some outcome) :
    (s.meet timing consumer now w o).1.stage = .closing outcome ∧
      deeds (s.meet timing consumer now w o).2 = [.call .close] := by
  cases o with
  | frame raw =>
    rw [meet, enter]
    rcases hmeaning : Frame.meaning raw with f | _ | d
    · rw [Heard.ending?_error hmeaning] at h
      obtain rfl := Option.some.inj h
      rw [onText_error hmeaning]
      exact ⟨rfl, rfl⟩
    · rw [Heard.ending?_none hmeaning] at h
      exact nomatch h
    · rw [Heard.ending?_some hmeaning] at h
      cases consumer with
      | true => exact nomatch h
      | false =>
        obtain rfl := Option.some.inj h
        rw [onText_some hmeaning]
        exact ⟨rfl, rfl⟩
  | failure f | hangUp | unanswered =>
    obtain rfl := Option.some.inj h
    exact ⟨rfl, rfl⟩
  | _ => exact nomatch h

/-! ### Runs of a session -/

variable {ms ms' : List Moment}

/-- Behind an ending nothing is left to do but to show that the connection is closed. -/
theorem run_verdict (timing : Timing) (h : s.stage.verdict? = some outcome) (ms : List Moment) :
    deeds (s.acts timing ms) = [] ∧ (s.run timing ms).1.stage.verdict? = some outcome := by
  induction ms generalizing s with
  | nil => exact ⟨rfl, h⟩
  | cons m ms ih =>
    have hstep : deeds (s.step timing m.consumer m.now m.signal).2 = [] ∧
        (s.step timing m.consumer m.now m.signal).1.stage.verdict? = some outcome := by
      unfold step
      cases hstage : s.stage with
      | closing o =>
        rw [hstage] at h
        cases m.signal with
        | closed => exact ⟨rfl, h⟩
        | _ => exact ⟨rfl, (congrArg Stage.verdict? hstage).trans h⟩
      | ended o => exact ⟨rfl, (congrArg Stage.verdict? hstage).trans (hstage ▸ h)⟩
      | _ =>
        rw [hstage] at h
        exact nomatch h
    rw [acts_cons, deeds_append, hstep.1, List.nil_append]
    exact ih hstep.2

/-- **A session in the middle of receiving does what each occurrence asks for**, up to the first one
that ends it. -/
theorem deeds_run (hstage : s.stage = .receiving w) (ms : List Moment) :
    deeds (s.acts timing ms) = (lasting (w.hearing timing ms)).flatMap Heard.deeds ++
        ((w.hearing timing ms).findSome? Heard.ending?).toList.map (fun _ => .call .close) ∧
      (s.run timing ms).1.stage.verdict? = (w.hearing timing ms).findSome? Heard.ending? := by
  induction ms generalizing s w with
  | nil => exact ⟨rfl, congrArg Stage.verdict? hstage⟩
  | cons m ms ih =>
    rw [acts_cons, run_cons_fst, Wait.hearing]
    cases hheard : w.hear? m.now m.signal with
    | none =>
      rw [step_unheard hstage hheard]
      exact ih hstage
    | some o =>
      rw [step_heard hstage hheard, deeds_append]
      cases hending : (Heard.mk m.consumer o).ending? with
      | none =>
        obtain ⟨hnext, hdeeds⟩ := meet_lasting timing m.now s w hending
        obtain ⟨hacts, hverdict⟩ := ih hnext
        rw [lasting_cons_of_none hending, List.flatMap_cons, List.findSome?_cons, hending, hdeeds,
          hacts, List.append_assoc]
        exact ⟨rfl, hverdict⟩
      | some outcome =>
        obtain ⟨hnext, hdeeds⟩ := meet_ending timing m.now s w hending
        obtain ⟨hacts, hverdict⟩ := run_verdict timing (congrArg Stage.verdict? hnext) ms
        rw [lasting_cons_of_some hending, List.findSome?_cons, hending, hdeeds, hacts]
        exact ⟨rfl, hverdict⟩

/-- Once its connection is closed, a session has ended if something has ended it. -/
theorem outcome?_step_closed (s : Session) :
    (s.step timing consumer now .closed).1.outcome? = s.stage.verdict? := by
  unfold step outcome?
  cases hstage : s.stage with
  | receiving w => cases w <;> simp [stay, hstage, Stage.verdict?]
  | _ => simp [stay, enter, hstage, Stage.verdict?]

end Session

/-! ## Whole sessions -/

/-- The opening of a session that subscribes: the products, and when, and in the presence of the
consumer or not, they were told, the connection was made and the request was sent. -/
structure Opening where
  pairs : List String
  resolved : ℕ × Bool
  connected : ℕ × Bool
  sent : ℕ × Bool

namespace Opening

/-- what a session is told in its opening -/
def moments (o : Opening) : List Moment := [
  ⟨o.resolved.1, o.resolved.2, .resolved (.ok o.pairs)⟩,
  ⟨o.connected.1, o.connected.2, .connected (.ok ())⟩,
  ⟨o.sent.1, o.sent.2, .sent (.ok ())⟩]

/-- what is awaited behind the opening -/
def wait (timing : Timing) (o : Opening) : Wait := .message (o.sent.1 + timing.message)

end Opening

namespace Session

variable {timing : Timing} {o : Opening} {ms : List Moment}

theorem stage_run_opening (timing : Timing) (o : Opening) :
    (start.1.run timing o.moments).1.stage = .receiving (o.wait timing) := rfl

theorem deeds_opening (timing : Timing) (o : Opening) :
    deeds (performed timing o.moments) =
      [.call .resolve, .call .connect, .call (.send (subscribeText o.pairs)), .call .receive] := rfl

/-- What a session does that subscribes and hears something then. -/
structure Listened (timing : Timing) (o : Opening) (ms : List Moment) (heard : List Heard) :
    Prop where
  /-- the diffs of the frames before the first ending, each once and in order -/
  deliveries : (performed timing (o.moments ++ ms)).filterMap Act.diff? =
    (lasting heard).filterMap Heard.diff?
  /-- once the connection is closed, the session has ended as the first ending says -/
  outcome (now : ℕ) (consumer : Bool) :
    ((start.1.run timing (o.moments ++ ms)).1.step timing consumer now .closed).1.outcome? =
      heard.findSome? Heard.ending?
  enqueued (kind : String) :
    (Counters.ofActs (performed timing (o.moments ++ ms))).enqueued kind =
      ((lasting heard).filterMap Heard.diff?).countP fun d => d.kind == kind
  ignored : (Counters.ofActs (performed timing (o.moments ++ ms))).ignored =
    (lasting heard).countP Heard.isIgnored
  /-- one call for each occurrence before the first ending, and only a close behind it -/
  calls : (performed timing (o.moments ++ ms)).filterMap Act.call? =
    [.resolve, .connect, .send (subscribeText o.pairs), .receive] ++
      (lasting heard).map Heard.nextCall ++
        (heard.findSome? Heard.ending?).toList.map fun _ => .close

/-- All deeds of a session that subscribes. -/
theorem deeds_performed (timing : Timing) (o : Opening) (ms : List Moment) :
    deeds (performed timing (o.moments ++ ms)) =
      [.call .resolve, .call .connect, .call (.send (subscribeText o.pairs)), .call .receive] ++
        (lasting ((o.wait timing).hearing timing ms)).flatMap Heard.deeds ++
          (((o.wait timing).hearing timing ms).findSome? Heard.ending?).toList.map
            fun _ => .call .close := by
  rw [performed, acts_append, ← List.append_assoc, deeds_append, ← performed, deeds_opening,
    (deeds_run (stage_run_opening timing o) ms).1, List.append_assoc]

theorem filterMap_diff?_performed (timing : Timing) (o : Opening) (ms : List Moment) :
    (performed timing (o.moments ++ ms)).filterMap Act.diff? =
      (lasting ((o.wait timing).hearing timing ms)).filterMap Heard.diff? := by
  rw [← filterMap_deeds (fun _ => rfl), deeds_performed, List.filterMap_append,
    List.filterMap_append, Heard.filterMap_diff?_flatMap]
  cases ((o.wait timing).hearing timing ms).findSome? Heard.ending? <;>
    simp [Act.diff?, List.filterMap_cons]

/-- **A session that has subscribed delivers the diffs of the frames before the first ending**, each
once and in order, ends as that ending says, and counts what it has done. -/
theorem run_listened (timing : Timing) (o : Opening) (ms : List Moment) :
    Listened timing o ms ((o.wait timing).hearing timing ms) where
  deliveries := filterMap_diff?_performed timing o ms
  outcome now consumer := by
    rw [outcome?_step_closed, run_append]
    exact (deeds_run (stage_run_opening timing o) ms).2
  enqueued kind := by
    rw [← filterMap_diff?_performed]
    exact countP_delivers kind _
  ignored := by
    rw [Counters.ofActs, ← count_ignore_deeds, deeds_performed, List.count_append,
      List.count_append, Heard.count_ignore_flatMap]
    cases ((o.wait timing).hearing timing ms).findSome? Heard.ending? <;> simp
  calls := by
    rw [← filterMap_deeds (fun _ => rfl), deeds_performed, List.filterMap_append,
      List.filterMap_append, Heard.filterMap_call?_flatMap]
    cases ((o.wait timing).hearing timing ms).findSome? Heard.ending? <;> rfl

end Session

end MarketFeed
