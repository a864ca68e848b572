import MarketFeed.Listener.Rehearsal
import MarketFeed.Proofs.Listener.Sessions

/-!
# Runs and rehearsals

A rehearsal makes up what a listener is told from the scripts of its peers. Whatever they are, the
listener does what it does in a run, and the end of a pause is told on time, so that all that holds
of runs holds of rehearsals: they are sequences of sessions.

## Main definitions

* `Scene.event?`: what happens next if nothing is cancelled
* `Listener.Rehearses`: what comes of a rehearsal is a run

## Main results

* `Scene.next?_spec`: what happens next leaves the log alone and passes no deadline
* `Listener.exists_rehearses`: a rehearsal in progress is a run
* `Listener.run_recounted`: what a listener delivers, counts and returns, and when its sessions
  begin
-/

namespace MarketFeed

namespace Scene

variable {s s' : Scene} {signal : Signal} {t : ℕ}

theorem now_perform (s : Scene) (acts : List Act) : (s.perform acts).now = s.now := by
  induction acts generalizing s with
  | nil => rfl
  | cons a acts ih => cases a <;> exact ih _

theorem log_perform (s : Scene) (acts : List Act) :
    (s.perform acts).log.reverse = s.log.reverse ++ acts.map (s.now, ·) := by
  induction acts generalizing s with
  | nil => simp [perform]
  | cons a acts ih => cases a <;> simp [perform, ih]

/-- An answer leaves the log alone, and cancels nothing. -/
theorem reply?_spec (h : s.reply? = some (t, signal, s')) :
    s'.log = s.log ∧ signal ≠ .cancelled := by
  obtain ⟨⟨since, call⟩, -, h⟩ := Option.bind_eq_some_iff.mp h
  cases call with
  | resolve | send | close =>
    obtain ⟨-, rfl, rfl⟩ := by simpa using h
    exact ⟨rfl, nofun⟩
  | connect =>
    cases hcoming : s.coming with
    | nil => simp [hcoming] at h
    | cons script coming =>
      obtain ⟨-, rfl, rfl⟩ := by simpa [hcoming] using h
      exact ⟨rfl, nofun⟩
  | receive =>
    cases harrivals : s.peer.arrivals with
    | nil => simp [harrivals] at h
    | cons a arrivals =>
      obtain ⟨-, rfl, rfl⟩ := by simpa [harrivals] using h
      exact ⟨rfl, nofun⟩
  | ping =>
    obtain ⟨course, -, h⟩ := Option.bind_eq_some_iff.mp h
    obtain ⟨-, rfl, rfl⟩ := by simpa using h
    exact ⟨rfl, nofun⟩

/-- what happens next if nothing is cancelled, and when -/
def event? (s : Scene) (deadline : Option ℕ) : Option (ℕ × Signal × Scene) :=
  match s.reply?, deadline with
  | some (t, signal, s'), some d =>
    if t ≤ d then some (t, signal, s') else some (d, .tick, { s with pending := none })
  | some r, none => some r
  | none, some d => some (d, .tick, { s with pending := none })
  | none, none => none

theorem next?_eq (s : Scene) (deadline cancelAt : Option ℕ) :
    s.next? deadline cancelAt =
      match s.event? deadline, cancelAt with
      | some (t, signal, s'), some c =>
        if c ≤ t then some (.cancelled, { s with now := max s.now c })
        else some (signal, { s' with now := max s.now t })
      | some (t, signal, s'), none => some (signal, { s' with now := max s.now t })
      | none, some c => some (.cancelled, { s with now := max s.now c })
      | none, none => none := rfl

/-- Nothing happens only to somebody who waits for ever. -/
theorem deadline_of_event?_eq_none {deadline : Option ℕ} (h : s.event? deadline = none) :
    deadline = none := by
  cases deadline with
  | none => rfl
  | some d =>
    unfold event? at h
    cases hreply : s.reply? with
    | none => simp [hreply] at h
    | some r =>
      simp only [hreply] at h
      split at h
      all_goals exact nomatch h

theorem event?_spec {deadline : Option ℕ} (h : s.event? deadline = some (t, signal, s')) :
    s'.log = s.log ∧ signal ≠ .cancelled ∧ ∀ d, deadline = some d → t ≤ d := by
  unfold event? at h
  cases hreply : s.reply? with
  | none =>
    cases deadline with
    | none => simp [hreply] at h
    | some d =>
      obtain ⟨rfl, rfl, rfl⟩ := by simpa [hreply] using h
      exact ⟨rfl, nofun, fun d' hd => (Option.some.inj hd).le⟩
  | some r =>
    obtain ⟨t', signal', s''⟩ := r
    obtain ⟨hlog, hsignal⟩ := reply?_spec hreply
    cases deadline with
    | none =>
      obtain ⟨rfl, rfl, rfl⟩ := by simpa [hreply] using h
      exact ⟨hlog, hsignal, nofun⟩
    | some d =>
      by_cases hdue : t' ≤ d
      · obtain ⟨rfl, rfl, rfl⟩ := by simpa [hreply, hdue] using h
        exact ⟨hlog, hsignal, fun d' hd => Option.some.inj hd ▸ hdue⟩
      · obtain ⟨rfl, rfl, rfl⟩ := by simpa [hreply, hdue] using h
        exact ⟨rfl, nofun, fun d' hd => (Option.some.inj hd).le⟩

/-- What happens next leaves the log alone, passes no deadline, and cancels nothing by itself. -/
theorem next?_spec {deadline cancelAt : Option ℕ}
    (h : s.next? deadline cancelAt = some (signal, s')) :
    s'.log = s.log ∧ (∀ d, deadline = some d → s.now ≤ d → s'.now ≤ d) ∧
      (cancelAt = none → signal ≠ .cancelled) := by
  rw [next?_eq] at h
  cases hevent : s.event? deadline with
  | none =>
    cases cancelAt with
    | none => simp [hevent] at h
    | some c =>
      obtain ⟨rfl, rfl⟩ := by simpa [hevent] using h
      have hforever : deadline = none := deadline_of_event?_eq_none hevent
      exact ⟨rfl, fun d hd => absurd (hforever.symm.trans hd) nofun, nofun⟩
  | some e =>
    obtain ⟨t, signal', s''⟩ := e
    obtain ⟨hlog, hsignal, hdue⟩ := event?_spec hevent
    cases cancelAt with
    | none =>
      obtain ⟨rfl, rfl⟩ := by simpa [hevent] using h
      exact ⟨hlog, fun d hd hnow => Nat.max_le.mpr ⟨hnow, hdue d hd⟩, fun _ => hsignal⟩
    | some c =>
      by_cases hcancel : c ≤ t
      · obtain ⟨rfl, rfl⟩ := by simpa [hevent, hcancel] using h
        exact ⟨rfl, fun d hd hnow => Nat.max_le.mpr ⟨hnow, hcancel.trans (hdue d hd)⟩, nofun⟩
      · obtain ⟨rfl, rfl⟩ := by simpa [hevent, hcancel] using h
        exact ⟨hlog, fun d hd hnow => Nat.max_le.mpr ⟨hnow, hdue d hd⟩, nofun⟩

end Scene

namespace Listener

variable {timing : Timing} {leaves cancelAt : Option ℕ} {l : Listener} {s : Scene}

/-- Behind a session there is a pause that ends no earlier than the session. -/
theorem le_of_settle_eq_cooling {now d : ℕ} {r : Session × List Act}
    (h : (settle timing now r).1 = .cooling d) : now ≤ d := by
  unfold settle at h
  cases houtcome : r.1.outcome? with
  | none => simp [houtcome] at h
  | some o =>
    cases o with
    | reconnectAfterCooldown =>
      obtain rfl : now + timing.cooldown = d := by simpa [houtcome, next] using h
      exact Nat.le_add_right ..
    | reconnectNow | terminate => simp [houtcome, next, begin] at h

/-- A listener is in a pause that it was in before, or in one that ends no earlier than now. -/
theorem le_of_step_eq_cooling {consumer : Bool} {now d : ℕ} {signal : Signal}
    (h : (l.step timing consumer now signal).1 = .cooling d) : l = .cooling d ∨ now ≤ d := by
  cases l with
  | stopped r => simp [step] at h
  | idle => cases signal <;> simp [step, begin] at h
  | session s =>
    cases signal with
    | cancelled => simp [step] at h
    | _ => exact .inr (le_of_settle_eq_cooling h)
  | cooling d' =>
    cases signal with
    | cancelled => simp [step] at h
    | tick =>
      simp only [step] at h
      split at h
      · simp [begin] at h
      · exact .inl h
    | _ => exact .inl h

theorem play_stopped (n : ℕ) (r : Except Fault Unit) (s : Scene) :
    (stopped r).play timing leaves cancelAt n s = (.stopped r, s) := by
  cases n <;> rfl

theorem play_of_next? {n : ℕ} {signal : Signal} {s' : Scene} (hgoing : ∀ r, l ≠ .stopped r)
    (hnext : s.next? l.deadline? cancelAt = some (signal, s')) :
    l.play timing leaves cancelAt (n + 1) s =
      (l.step timing (present leaves s'.now) s'.now signal).1.play timing leaves cancelAt n
        (s'.perform (l.step timing (present leaves s'.now) s'.now signal).2) := by
  cases l with
  | stopped r => exact absurd rfl (hgoing r)
  | _ => simp only [play, hnext]

theorem play_of_next?_eq_none (n : ℕ) (hnext : s.next? l.deadline? cancelAt = none) :
    l.play timing leaves cancelAt n s = (l, s) := by
  cases n with
  | zero => rfl
  | succ n => cases l <;> simp only [play, hnext]

/-- What comes of a listener and a scene is a run on some moments: the end of a pause is told on
time, and what the listener does is taken down. -/
structure Rehearses (timing : Timing) (cancelAt : Option ℕ) (l : Listener) (s : Scene)
    (r : Listener × Scene) (ms : List Moment) : Prop where
  punctual : l.Punctual timing ms
  signals : cancelAt = none → ∀ m ∈ ms, m.signal ≠ .cancelled
  listener : r.1 = (l.run timing ms).1
  log : r.2.log.reverse = s.log.reverse ++ (l.run timing ms).2

theorem rehearses_nil (timing : Timing) (cancelAt : Option ℕ) (l : Listener) (s : Scene) :
    Rehearses timing cancelAt l s (l, s) [] :=
  ⟨trivial, fun _ => List.forall_mem_nil _, rfl, (List.append_nil _).symm⟩

/-- **A rehearsal is a run.** -/
theorem exists_rehearses (n : ℕ) (h : ∀ d, l = .cooling d → s.now ≤ d) :
    ∃ ms, Rehearses timing cancelAt l s (l.play timing leaves cancelAt n s) ms := by
  induction n generalizing l s with
  | zero => exact ⟨[], rehearses_nil timing cancelAt l s⟩
  | succ n ih =>
    by_cases hgoing : ∀ r, l ≠ .stopped r
    case neg =>
      obtain ⟨r, hr⟩ := not_forall.mp hgoing
      obtain rfl := not_not.mp hr
      rw [play_stopped]
      exact ⟨[], rehearses_nil timing cancelAt _ s⟩
    case pos =>
      cases hnext : s.next? l.deadline? cancelAt with
      | none =>
        rw [play_of_next?_eq_none _ hnext]
        exact ⟨[], rehearses_nil timing cancelAt l s⟩
      | some e =>
        obtain ⟨signal, s'⟩ := e
        obtain ⟨hlog, hdue, hsignal⟩ := Scene.next?_spec hnext
        have hontime : ∀ d, l = .cooling d → s'.now ≤ d := fun d hd =>
          hdue d (hd ▸ rfl) (h d hd)
        rw [play_of_next? hgoing hnext]
        set r := l.step timing (present leaves s'.now) s'.now signal
        have hafter : ∀ d, r.1 = .cooling d → (s'.perform r.2).now ≤ d := fun d hd => by
          rw [Scene.now_perform]
          exact (le_of_step_eq_cooling hd).elim (hontime d) id
        obtain ⟨ms, hms⟩ := ih hafter
        refine ⟨⟨s'.now, present leaves s'.now, signal⟩ :: ms, ⟨hontime, hms.punctual⟩, ?_, ?_, ?_⟩
        · exact fun hnever => List.forall_mem_cons.mpr ⟨hsignal hnever, hms.signals hnever⟩
        · exact hms.listener
        · rw [hms.log, Scene.log_perform, hlog, List.append_assoc]
          rfl

/-- **A listener is a sequence of sessions**, whatever it is told, as long as nobody cancels it. In
particular it is one in a rehearsal, whatever the scripts of its peers are, and there the end of
every pause is told on time. -/
theorem run_recounted (timing : Timing) :
    (∀ ms : List Moment, (∀ m ∈ ms, m.signal ≠ .cancelled) → ∃ xs, Recounted timing ms xs) ∧
      ∀ (leaves : Option ℕ) (s : Scene), ∃ ms xs,
        Rehearses timing none idle s (rehearse timing leaves none s) ms ∧
          Recounted timing ms xs := by
  refine ⟨fun ms => exists_recounted timing, fun leaves s => ?_⟩
  obtain ⟨ms, hms⟩ : ∃ ms, Rehearses timing none idle s (rehearse timing leaves none s) ms :=
    exists_rehearses _ nofun
  obtain ⟨xs, hxs⟩ := exists_recounted timing (hms.signals rfl)
  exact ⟨ms, xs, hms, hxs⟩

/-- A listener that cannot find out its products at first, and then loses its peer. -/
def sampleMoments : List Moment := [
  ⟨0, true, .tick⟩, ⟨0, true, .resolved (.error .timeout)⟩, ⟨5, true, .tick⟩,
  ⟨5, true, .resolved (.ok ["BTC-USD"])⟩, ⟨6, true, .connected (.ok ())⟩,
  ⟨7, true, .sent (.ok ())⟩, ⟨9, true, .received (.ok .closed)⟩, ⟨9, true, .closed⟩]

theorem run_recounted_sample :
    (∀ m ∈ sampleMoments, m.signal ≠ .cancelled) ∧
      idle.Punctual ⟨10, 10, 5⟩ sampleMoments ∧
        ∃ xs, Recounted ⟨10, 10, 5⟩ sampleMoments xs := by
  refine ⟨by simp [sampleMoments], ?_, (run_recounted _).1 _ (by simp [sampleMoments])⟩
  refine ⟨nofun, nofun, ?_, nofun, nofun, nofun, nofun, nofun, trivial⟩
  rintro d ⟨⟩
  exact Nat.le_refl 5

end Listener

end MarketFeed
