import MarketFeed.Proofs.Listener.Listening

/-!
# The wait for a frame

Between two frames a session only waits: for a message, and when none has come in time, for the
answer to a probe. That wait goes round after round, and each round is one receive, with a probe
behind it if the receive has expired. The rounds are told here from what the session is told, with
the times at which they start and end, and apart from them the wait is a machine of its own, which
ends with a frame, with the peer's farewell or with a fault. A session that receives goes through
this machine and then takes what it came to.

## Main definitions

* `Wait.nextFrame`: what the wait for a frame comes to, and the calls it makes
* `Round`: a receive, with the probe that may follow it
* `Wait.Unfinished`, `Round.Told`: what tells of a round that is going on, and of one that is over
* `Wait.Course`: the rounds of a wait, and when its receives have expired
* `Session.proceed`: a session goes on with what the wait for a frame came to

## Main results

* `Session.run_receiving`: a session in the middle of receiving waits for a frame, and takes it
* `Wait.exists_course`: every wait is a course of rounds, with a ping for every receive that expired
* `Wait.nextFrame_keepsAlive`: the laws of the wait
-/

namespace MarketFeed

variable {timing : Timing}

/-! ## The machine -/

/-- What the wait for a frame comes to, if this occurs: a frame, nothing more from the peer, or a
fault. It goes on after the others. -/
def Occurrence.gives? : Occurrence → Option (Except Fault (Option String))
  | .frame raw => some (.ok (some raw))
  | .hangUp => some (.ok none)
  | .failure f => some (.error f)
  | .unanswered => some (.error .timeout)
  | .control | .silence | .pinged => none

/-- the call that is made if the wait goes on -/
def Occurrence.call : Occurrence → Call
  | .silence => .ping
  | _ => .receive

/-- Where the wait for a frame stands: it goes on, or some moment has ended it, and the moments
behind are not told to it. -/
inductive Awaited
  | waiting (w : Wait)
  | ended (m : Moment) (r : Except Fault (Option String)) (rest : List Moment)

namespace Wait

/-- The wait for a frame: what it comes to, and the calls it makes with their times. -/
def nextFrame (timing : Timing) (w : Wait) : List Moment → Awaited × List (ℕ × Call)
  | [] => (.waiting w, [])
  | m :: ms =>
    match w.hear? m.now m.signal with
    | none => w.nextFrame timing ms
    | some o =>
      match o.gives? with
      | some r => (.ended m r ms, [])
      | none =>
        let a := (w.next timing m.now o).nextFrame timing ms
        (a.1, (m.now, o.call) :: a.2)

section Steps

variable {w : Wait} {m : Moment} {ms : List Moment} {o : Occurrence}
  {r : Except Fault (Option String)}

theorem nextFrame_of_unheard (h : w.hear? m.now m.signal = none) :
    w.nextFrame timing (m :: ms) = w.nextFrame timing ms := by
  simp only [nextFrame, h]

theorem nextFrame_of_some (h : w.hear? m.now m.signal = some o) (hr : o.gives? = some r) :
    w.nextFrame timing (m :: ms) = (.ended m r ms, []) := by
  simp only [nextFrame, h, hr]

theorem nextFrame_of_none (h : w.hear? m.now m.signal = some o) (hr : o.gives? = none) :
    w.nextFrame timing (m :: ms) =
      (((w.next timing m.now o).nextFrame timing ms).1,
        (m.now, o.call) :: ((w.next timing m.now o).nextFrame timing ms).2) := by
  simp only [nextFrame, h, hr]

end Steps

end Wait

namespace Session

variable {s : Session} {w : Wait} {now : ℕ} {consumer : Bool} {o : Occurrence}
  {r : Except Fault (Option String)}

/-- What a session does with what the wait for a frame came to. -/
def take (timing : Timing) (consumer : Bool) (now : ℕ) (s : Session) :
    Except Fault (Option String) → Session × List Act
  | .ok (some raw) => s.enter .receiving (onText timing consumer now raw)
  | .ok none => s.close .reconnectNow
  | .error f => s.fail f

/-- A session goes on with what the wait for a frame came to. -/
def proceed (timing : Timing) (s : Session) (a : Awaited × List (ℕ × Call)) :
    Session × List (ℕ × Act) :=
  match a with
  | (.waiting w, calls) => ({ s with stage := .receiving w }, calls.map fun c => (c.1, .call c.2))
  | (.ended m r rest, calls) =>
    let taken := s.take timing m.consumer m.now r
    let after := taken.1.run timing rest
    (after.1, calls.map (fun c => (c.1, .call c.2)) ++ (taken.2.map (m.now, ·) ++ after.2))

theorem meet_of_some (h : o.gives? = some r) :
    s.meet timing consumer now w o = s.take timing consumer now r := by
  cases o <;> cases h <;> rfl

theorem meet_of_none (h : o.gives? = none) :
    s.meet timing consumer now w o =
      ({ s with stage := .receiving (w.next timing now o) }, [.call o.call]) := by
  cases o <;> first | rfl | exact nomatch h

/-- Where a session stands does not matter to it once the wait is over. -/
theorem take_stage (s : Session) (stage : Stage) :
    ({ s with stage } : Session).take timing consumer now r = s.take timing consumer now r := by
  rcases r with f | (- | raw)
  · rfl
  · rfl
  · simp only [take, enter, onText]
    split
    · rfl
    · rfl
    · split_ifs <;> rfl

theorem proceed_stage (s : Session) (stage : Stage) (a : Awaited × List (ℕ × Call)) :
    ({ s with stage } : Session).proceed timing a = s.proceed timing a := by
  obtain ⟨w | ⟨m, r, rest⟩, calls⟩ := a
  · rfl
  · simp only [proceed, take_stage]

theorem proceed_cons (s : Session) (a : Awaited) (now : ℕ) (c : Call) (calls : List (ℕ × Call)) :
    s.proceed timing (a, (now, c) :: calls) =
      ((s.proceed timing (a, calls)).1, (now, .call c) :: (s.proceed timing (a, calls)).2) := by
  cases a <;> rfl

/-- **A session in the middle of receiving waits for a frame, and takes what the wait comes to.** -/
theorem run_receiving (hstage : s.stage = .receiving w) (ms : List Moment) :
    s.run timing ms = s.proceed timing (w.nextFrame timing ms) := by
  induction ms generalizing s w with
  | nil =>
    simp only [run, Wait.nextFrame, proceed, List.map_nil, ← hstage]
  | cons m ms ih =>
    cases hhear : w.hear? m.now m.signal with
    | none =>
      rw [Wait.nextFrame_of_unheard hhear, ← ih hstage, run, step_unheard hstage hhear]
      rfl
    | some o =>
      cases hgives : o.gives? with
      | some r =>
        rw [Wait.nextFrame_of_some hhear hgives, run, step_heard hstage hhear, meet_of_some hgives]
        rfl
      | none =>
        rw [Wait.nextFrame_of_none hhear hgives, run, step_heard hstage hhear, meet_of_none hgives]
        have hnext := @ih { s with stage := .receiving (w.next timing m.now o) } _ rfl
        rw [proceed_stage] at hnext
        rw [proceed_cons, ← hnext]
        rfl

end Session

/-! ## Rounds -/

/-- what a receive gives to those who want a frame: a control frame is none -/
def frame? : Except Fault Inbound → Option (Except Fault (Option String))
  | .ok (.text raw) => some (.ok (some raw))
  | .ok .control => none
  | .ok .closed => some (.ok none)
  | .error f => some (.error f)

theorem ofReceived_ne (r : Except Fault Inbound) :
    Occurrence.ofReceived r ≠ .silence ∧ Occurrence.ofReceived r ≠ .pinged := by
  rcases r with f | i
  · exact ⟨nofun, nofun⟩
  · cases i <;> exact ⟨nofun, nofun⟩

theorem gives?_ofReceived (r : Except Fault Inbound) :
    (Occurrence.ofReceived r).gives? = frame? r := by
  rcases r with f | i
  · rfl
  · cases i <;> rfl

/-- What comes of a probe: the ping cannot be sent, something is received behind it, or the time of
the probe runs out before. -/
inductive Probe
  | failed (f : Fault)
  | answered (r : Except Fault Inbound)
  | ranOut

/-- A round of the wait for a frame: something is received in time, or the receive expires and a
probe follows. -/
inductive Round
  | arrives (r : Except Fault Inbound)
  | probed (expiry : ℕ) (p : Probe)

namespace Round

/-- What a round comes to, unless another one follows. It does not matter whether something was
received in time or behind a ping. -/
def gives? : Round → Option (Except Fault (Option String))
  | .arrives r | .probed _ (.answered r) => frame? r
  | .probed _ (.failed f) => some (.error f)
  | .probed _ .ranOut => some (.error .timeout)

/-- when the receive of a round has expired, if it has -/
def expiry? : Round → Option ℕ
  | .arrives _ => none
  | .probed expiry _ => some expiry

/-- the failure of a receive or of a ping -/
def failure? : Round → Option Fault
  | .arrives (.error f) | .probed _ (.answered (.error f)) | .probed _ (.failed f) => some f
  | _ => none

theorem gives?_of_failure? {round : Round} {f : Fault} (h : round.failure? = some f) :
    round.gives? = some (.error f) := by
  unfold failure? at h
  split at h
  · cases h
    rfl
  · cases h
    rfl
  · cases h
    rfl
  · exact nomatch h

theorem frame?_eq_error {r : Except Fault Inbound} {f : Fault} (h : frame? r = some (.error f)) :
    r = .error f := by
  rcases r with g | i
  · cases h
    rfl
  · cases i <;> cases h

/-- A round comes to a timeout only if its probe runs out, or the connection itself fails so. -/
theorem gives?_eq_timeout_iff {round : Round} :
    round.gives? = some (.error .timeout) ↔
      (∃ expiry, round = .probed expiry .ranOut) ∨ round.failure? = some .timeout := by
  constructor
  · intro h
    rcases round with r | ⟨expiry, f | r | -⟩
    · rw [frame?_eq_error h]
      exact .inr rfl
    · cases h
      exact .inr rfl
    · rw [frame?_eq_error h]
      exact .inr rfl
    · exact .inl ⟨expiry, rfl⟩
  · rintro (⟨expiry, rfl⟩ | h)
    · rfl
    · exact gives?_of_failure? h

end Round

namespace Wait

/-- The signals that a wait is for. -/
def Answers : Wait → Signal → Prop
  | .message _, signal | .answer _, signal => ∃ r, signal = .received r
  | .probe _, signal => ∃ r, signal = .pinged r

/-- Moments that tell nothing: they are not what the wait is for, and its time is not over. -/
def Quiet (w : Wait) (ms : List Moment) : Prop :=
  ∀ m ∈ ms, ¬ w.Answers m.signal ∧ (m.signal = .tick → m.now < w.deadline)

theorem quiet_of_hear? {w : Wait} {now : ℕ} {signal : Signal} (h : w.hear? now signal = none) :
    ¬ w.Answers signal ∧ (signal = .tick → now < w.deadline) := by
  constructor
  · intro hanswers
    cases w with
    | message d | answer d =>
      obtain ⟨r, rfl⟩ := hanswers
      exact nomatch h
    | probe d =>
      obtain ⟨r, rfl⟩ := hanswers
      cases r <;> exact nomatch h
  · rintro rfl
    by_contra hdue
    rw [hear?_tick, if_pos (Nat.not_lt.mp hdue)] at h
    cases w <;> exact nomatch h

theorem quiet_nil (w : Wait) : w.Quiet [] := nofun

/-- What can be heard while waiting. -/
inductive Hears (now : ℕ) : Wait → Signal → Occurrence → Prop
  | message {d : ℕ} {r : Except Fault Inbound} :
      Hears now (.message d) (.received r) (.ofReceived r)
  | silence {d : ℕ} (due : d ≤ now) : Hears now (.message d) .tick .silence
  | pinged {d : ℕ} : Hears now (.probe d) (.pinged (.ok ())) .pinged
  | failed {d : ℕ} {f : Fault} : Hears now (.probe d) (.pinged (.error f)) (.failure f)
  | stalled {d : ℕ} (due : d ≤ now) : Hears now (.probe d) .tick .unanswered
  | answer {d : ℕ} {r : Except Fault Inbound} :
      Hears now (.answer d) (.received r) (.ofReceived r)
  | unanswered {d : ℕ} (due : d ≤ now) : Hears now (.answer d) .tick .unanswered

theorem hears_of_hear? {w : Wait} {now : ℕ} {signal : Signal} {o : Occurrence}
    (h : w.hear? now signal = some o) : Hears now w signal o := by
  cases signal with
  | tick =>
    rw [hear?_tick] at h
    split_ifs at h with hdue
    cases w <;> cases h
    · exact .silence hdue
    · exact .stalled hdue
    · exact .unanswered hdue
  | received r =>
    cases w <;> cases h
    · exact .message
    · exact .answer
  | pinged r =>
    cases w <;> cases r <;> cases h
    · exact .failed
    · exact .pinged
  | _ => exact nomatch h

theorem Quiet.concat {w : Wait} {ms : List Moment} {m : Moment} (h : w.Quiet ms)
    (hm : w.hear? m.now m.signal = none) : w.Quiet (ms ++ [m]) := by
  intro m' hm'
  rcases List.mem_append.mp hm' with hold | hnew
  · exact h m' hold
  · rw [List.mem_singleton.mp hnew]
    exact quiet_of_hear? hm

/-- What tells of a round that has started at some time and goes on, the wait it has come to, and
the times when its receive has expired, of which there is at most one. -/
inductive Unfinished (timing : Timing) (start : ℕ) : List Moment → Wait → List ℕ → Prop
  /-- the whole time for a message is there at the start -/
  | message {ms : List Moment} (quiet : Quiet (.message (start + timing.message)) ms) :
      Unfinished timing start ms (.message (start + timing.message)) []
  /-- it runs out, and at once the ping is being sent -/
  | probe {ms ms' : List Moment} {m : Moment} {d : ℕ}
      (before : Unfinished timing start ms (.message d) []) (tick : m.signal = .tick)
      (due : d ≤ m.now) (quiet : Quiet (.probe (m.now + timing.ping)) ms') :
      Unfinished timing start (ms ++ m :: ms') (.probe (m.now + timing.ping)) [m.now]
  /-- the ping is sent, and no time is added for the answer -/
  | answer {ms ms' : List Moment} {m : Moment} {d expiry : ℕ}
      (before : Unfinished timing start ms (.probe d) [expiry])
      (sent : m.signal = .pinged (.ok ())) (quiet : Quiet (.answer d) ms') :
      Unfinished timing start (ms ++ m :: ms') (.answer d) [expiry]

end Wait

/-- What tells of a round that has started at some time, and the moment that ends it. -/
inductive Round.Told (timing : Timing) (start : ℕ) : Round → List Moment → Moment → Prop
  | arrives {ms : List Moment} {m : Moment} {d : ℕ} {r : Except Fault Inbound}
      (before : Wait.Unfinished timing start ms (.message d) [])
      (received : m.signal = .received r) :
      Told timing start (.arrives r) ms m
  | failed {ms : List Moment} {m : Moment} {d expiry : ℕ} {f : Fault}
      (before : Wait.Unfinished timing start ms (.probe d) [expiry])
      (unsent : m.signal = .pinged (.error f)) :
      Told timing start (.probed expiry (.failed f)) ms m
  | answered {ms : List Moment} {m : Moment} {d expiry : ℕ} {r : Except Fault Inbound}
      (before : Wait.Unfinished timing start ms (.answer d) [expiry])
      (received : m.signal = .received r) :
      Told timing start (.probed expiry (.answered r)) ms m
  | ranOut {ms : List Moment} {m : Moment} {w : Wait} {expiry : ℕ}
      (before : Wait.Unfinished timing start ms w [expiry]) (tick : m.signal = .tick)
      (due : w.deadline ≤ m.now) :
      Told timing start (.probed expiry .ranOut) ms m

namespace Wait

/-- The rounds of a wait that has started at some time, the times when its receives have expired,
and what it comes to. -/
inductive Course (timing : Timing) :
    ℕ → List Moment → List Round → List ℕ → Awaited → Prop
  /-- a round goes on -/
  | waiting {start : ℕ} {ms : List Moment} {w : Wait} {es : List ℕ}
      (unfinished : Unfinished timing start ms w es) :
      Course timing start ms [] es (.waiting w)
  /-- a round is over and comes to nothing, and at once the next one starts -/
  | again {start : ℕ} {ms ms' : List Moment} {m : Moment} {round : Round} {rounds : List Round}
      {es : List ℕ} {a : Awaited} (told : round.Told timing start ms m)
      (nothing : round.gives? = none) (rest : Course timing m.now ms' rounds es a) :
      Course timing start (ms ++ m :: ms') (round :: rounds) (round.expiry?.toList ++ es) a
  /-- a round is over and comes to something -/
  | ended {start : ℕ} {ms rest : List Moment} {m : Moment} {round : Round}
      {r : Except Fault (Option String)} (told : round.Told timing start ms m)
      (gives : round.gives? = some r) :
      Course timing start (ms ++ m :: rest) [round] round.expiry?.toList (.ended m r rest)

/-- the times of the pings among some calls -/
def pings (calls : List (ℕ × Call)) : List ℕ := (calls.filter fun c => c.2 = .ping).map Prod.fst

section

variable {start : ℕ} {ms : List Moment} {m : Moment} {w : Wait} {es : List ℕ} {o : Occurrence}

/-- A moment that tells nothing changes nothing. -/
theorem Unfinished.concat (h : Unfinished timing start ms w es)
    (hm : w.hear? m.now m.signal = none) : Unfinished timing start (ms ++ [m]) w es := by
  cases h with
  | message quiet => exact .message (quiet.concat hm)
  | probe before tick due quiet =>
    rw [List.append_assoc, List.cons_append]
    exact .probe before tick due (quiet.concat hm)
  | answer before sent quiet =>
    rw [List.append_assoc, List.cons_append]
    exact .answer before sent (quiet.concat hm)

/-- A probe follows at once on a receive that has expired. -/
theorem Unfinished.silence (h : Unfinished timing start ms w es)
    (hm : w.hear? m.now m.signal = some .silence) :
    es = [] ∧ Unfinished timing start (ms ++ [m]) (.probe (m.now + timing.ping)) [m.now] := by
  have hhears := hears_of_hear? hm
  generalize hsignal : m.signal = signal, ho : Occurrence.silence = o at hhears
  cases hhears with
  | silence due =>
    cases h with
    | message quiet => exact ⟨rfl, .probe (.message quiet) hsignal due (quiet_nil _)⟩
  | @message _ r | @answer _ r => exact absurd ho.symm (ofReceived_ne r).1
  | _ => exact nomatch ho

/-- The answer to a probe is awaited once the ping is sent. -/
theorem Unfinished.pinged (h : Unfinished timing start ms w es)
    (hm : w.hear? m.now m.signal = some .pinged) :
    Unfinished timing start (ms ++ [m]) (.answer w.deadline) es := by
  have hhears := hears_of_hear? hm
  generalize hsignal : m.signal = signal, ho : Occurrence.pinged = o at hhears
  cases hhears with
  | pinged =>
    cases h with
    | probe before tick due quiet =>
      exact .answer (.probe before tick due quiet) hsignal (quiet_nil _)
  | @message _ r | @answer _ r => exact absurd ho.symm (ofReceived_ne r).2
  | _ => exact nomatch ho

/-- Any other occurrence ends the round. -/
theorem Unfinished.told (h : Unfinished timing start ms w es)
    (hm : w.hear? m.now m.signal = some o) (hsilence : o ≠ .silence) (hpinged : o ≠ .pinged) :
    ∃ round : Round, round.Told timing start ms m ∧ round.gives? = o.gives? ∧
      round.expiry?.toList = es := by
  have hhears := hears_of_hear? hm
  generalize hsignal : m.signal = signal at hhears
  cases h with
  | message quiet =>
    cases hhears with
    | silence => exact absurd rfl hsilence
    | @message _ r =>
      exact ⟨.arrives r, .arrives (.message quiet) hsignal, (gives?_ofReceived r).symm, rfl⟩
  | @probe _ _ m₁ _ before tick due quiet =>
    have hbefore := Unfinished.probe before tick due quiet
    cases hhears with
    | pinged => exact absurd rfl hpinged
    | @failed _ f => exact ⟨.probed m₁.now (.failed f), .failed hbefore hsignal, rfl, rfl⟩
    | stalled hdue => exact ⟨.probed m₁.now .ranOut, .ranOut hbefore hsignal hdue, rfl, rfl⟩
  | @answer _ _ _ _ expiry before sent quiet =>
    have hbefore := Unfinished.answer before sent quiet
    cases hhears with
    | @answer _ r =>
      exact ⟨.probed expiry (.answered r), .answered hbefore hsignal,
        (gives?_ofReceived r).symm, rfl⟩
    | unanswered hdue => exact ⟨.probed expiry .ranOut, .ranOut hbefore hsignal hdue, rfl, rfl⟩

end

/-- What the wait goes on with, if an occurrence is neither silence nor a ping that was sent. -/
theorem next_of_gives?_eq_none {o : Occurrence} (w : Wait) (now : ℕ) (h : o.gives? = none)
    (hsilence : o ≠ .silence) (hpinged : o ≠ .pinged) :
    w.next timing now o = .message (now + timing.message) ∧ o.call = .receive := by
  cases o with
  | control => exact ⟨rfl, rfl⟩
  | silence => exact absurd rfl hsilence
  | pinged => exact absurd rfl hpinged
  | _ => cases h

/-- **Every wait is a course of rounds**, and it sends a ping just when a receive has expired. The
induction is on the moments to come, and `h` has what is known of the round so far. -/
theorem exists_course {start : ℕ} {ms₀ : List Moment} {w : Wait} {es : List ℕ}
    (h : Unfinished timing start ms₀ w es) (ms : List Moment) :
    ∃ rounds, Course timing start (ms₀ ++ ms) rounds (es ++ pings (w.nextFrame timing ms).2)
      (w.nextFrame timing ms).1 := by
  induction ms generalizing start ms₀ w es with
  | nil =>
    refine ⟨[], ?_⟩
    simpa [nextFrame, pings] using Course.waiting h
  | cons m ms ih =>
    have hsplit : ms₀ ++ m :: ms = (ms₀ ++ [m]) ++ ms := by simp
    cases hhear : w.hear? m.now m.signal with
    | none =>
      rw [nextFrame_of_unheard hhear, hsplit]
      exact ih (h.concat hhear)
    | some o =>
      by_cases hsilence : o = .silence
      · subst hsilence
        obtain ⟨rfl, hprobe⟩ := h.silence hhear
        rw [nextFrame_of_none hhear rfl, hsplit]
        exact ih hprobe
      by_cases hpinged : o = .pinged
      · subst hpinged
        rw [nextFrame_of_none hhear rfl, hsplit]
        exact ih (h.pinged hhear)
      obtain ⟨round, htold, hgives, rfl⟩ := h.told hhear hsilence hpinged
      cases hr : o.gives? with
      | some r =>
        rw [nextFrame_of_some hhear hr]
        refine ⟨[round], ?_⟩
        simpa [pings] using Course.ended htold (hgives.trans hr)
      | none =>
        obtain ⟨hnext, hcall⟩ := next_of_gives?_eq_none w m.now hr hsilence hpinged
        rw [nextFrame_of_none hhear hr, hnext, hcall]
        obtain ⟨rounds, hcourse⟩ := ih (.message (quiet_nil (.message (m.now + timing.message))))
        exact ⟨round :: rounds, .again htold (hgives.trans hr) hcourse⟩

theorem calls_nextFrame (w : Wait) (ms : List Moment) :
    ∀ c ∈ (w.nextFrame timing ms).2, c.2 = .ping ∨ c.2 = .receive := by
  induction ms generalizing w with
  | nil => exact nofun
  | cons m ms ih =>
    cases hhear : w.hear? m.now m.signal with
    | none =>
      rw [nextFrame_of_unheard hhear]
      exact ih w
    | some o =>
      cases hr : o.gives? with
      | some r =>
        rw [nextFrame_of_some hhear hr]
        exact nofun
      | none =>
        rw [nextFrame_of_none hhear hr]
        refine List.forall_mem_cons.mpr ⟨?_, ih _⟩
        cases o <;> first | exact .inl rfl | exact .inr rfl

/-- What a wait comes to is what its last round comes to; all others come to nothing. -/
theorem Course.exists_last {start : ℕ} {ms rest : List Moment} {rounds : List Round} {es : List ℕ}
    {m : Moment} {r : Except Fault (Option String)}
    (h : Course timing start ms rounds es (.ended m r rest)) :
    ∃ before round, rounds = before ++ [round] ∧ (∀ x ∈ before, x.gives? = none) ∧
      round.gives? = some r := by
  generalize ha : Awaited.ended m r rest = a at h
  induction h with
  | waiting => exact nomatch ha
  | @again _ _ _ _ round rounds _ _ told nothing rest ih =>
    obtain ⟨before, last, rfl, hbefore, hlast⟩ := ih ha
    exact ⟨round :: before, last, rfl, List.forall_mem_cons.mpr ⟨nothing, hbefore⟩, hlast⟩
  | @ended _ _ _ _ round _ told gives =>
    cases ha
    exact ⟨[], round, rfl, nofun, gives⟩

/-- A failure of the connection is what the wait comes to. -/
theorem Course.ended_of_failure? {start : ℕ} {ms : List Moment} {rounds : List Round} {es : List ℕ}
    {a : Awaited} (h : Course timing start ms rounds es a) {round : Round} (hround : round ∈ rounds)
    {f : Fault} (hfailure : round.failure? = some f) : ∃ m rest, a = .ended m (.error f) rest := by
  have hgives := Round.gives?_of_failure? hfailure
  induction h with
  | waiting => exact nomatch hround
  | again told nothing rest ih =>
    rcases List.mem_cons.mp hround with rfl | htail
    · rw [nothing] at hgives
      exact nomatch hgives
    · exact ih htail
  | @ended _ _ rest m _ _ told gives =>
    obtain rfl := List.mem_singleton.mp hround
    rw [gives] at hgives
    cases hgives
    exact ⟨m, rest, rfl⟩

/-- The laws of the wait for a frame that starts at some time and goes through some rounds. -/
structure KeepsAlive (timing : Timing) (start : ℕ) (ms : List Moment) (rounds : List Round)
    (a : Awaited × List (ℕ × Call)) : Prop where
  /-- The rounds are told by the moments, and pings are sent at the times when a receive expires and
  at no other. -/
  course : Course timing start ms rounds (pings a.2) a.1
  /-- Otherwise it only receives. -/
  calls : ∀ c ∈ a.2, c.2 = .ping ∨ c.2 = .receive
  /-- It comes to what its last round comes to, and this is a timeout just if a probe ran out or the
  connection itself failed with one. -/
  result : ∀ m r rest, a.1 = .ended m r rest →
    ∃ before round, rounds = before ++ [round] ∧ (∀ x ∈ before, x.gives? = none) ∧
      round.gives? = some r ∧ (r = .error .timeout ↔
        (∃ expiry, round = .probed expiry .ranOut) ∨ round.failure? = some .timeout)
  /-- Whatever fails on the connection is what it comes to, unchanged. -/
  failure : ∀ round ∈ rounds, ∀ f, round.failure? = some f →
    ∃ m rest, a.1 = .ended m (.error f) rest
  /-- A session in the middle of receiving does nothing else, and then takes what it came to. -/
  session : ∀ status,
    Session.run timing ⟨status, .receiving (.message (start + timing.message))⟩ ms =
      Session.proceed timing ⟨status, .receiving (.message (start + timing.message))⟩ a

/-- **The wait for a frame keeps a connection alive**, whatever it is told and when. Every receive
that expires is followed at once by one ping, the sending of which and the answer to it share the
time of a probe; whatever answers counts like a message in time; and the wait comes to a timeout
when that time runs out. -/
theorem nextFrame_keepsAlive (timing : Timing) (start : ℕ) (ms : List Moment) :
    ∃ rounds, KeepsAlive timing start ms rounds
      ((Wait.message (start + timing.message)).nextFrame timing ms) := by
  have hstart : Unfinished timing start [] (.message (start + timing.message)) [] :=
    .message (quiet_nil _)
  obtain ⟨rounds, hcourse⟩ := exists_course hstart ms
  refine ⟨rounds, hcourse, calls_nextFrame _ ms, ?_, ?_, fun status => Session.run_receiving rfl ms⟩
  · intro m r rest hover
    rw [hover] at hcourse
    obtain ⟨before, round, hrounds, hbefore, hgives⟩ := hcourse.exists_last
    refine ⟨before, round, hrounds, hbefore, hgives, ?_⟩
    rw [← Round.gives?_eq_timeout_iff, hgives, Option.some.injEq]
  · intro round hround f hfailure
    exact hcourse.ended_of_failure? hround hfailure

/-- A control frame that answers a probe gives the peer the whole time again; then nothing
answers. -/
example : (Wait.message 30).nextFrame ⟨30, 10, 0⟩
    [⟨30, true, .tick⟩, ⟨31, true, .pinged (.ok ())⟩, ⟨39, true, .received (.ok .control)⟩,
      ⟨68, true, .tick⟩, ⟨69, true, .tick⟩, ⟨79, true, .tick⟩] =
    (.ended ⟨79, true, .tick⟩ (.error .timeout) [],
      [(30, .ping), (31, .receive), (39, .receive), (69, .ping)]) := rfl

end Wait

end MarketFeed
