import MarketFeed.Proofs.Listener.Listening
import MarketFeed.Proofs.Text.Utf8
import MarketFeed.Socket.Message

/-!
# Failures of the socket

A failure of the socket can strike wherever a session has called it. Two ways tell a session of it:
a receive takes the loss of the connection for a close by the peer, while a send and a ping pass it
on as a fault, which the session judges at its end. Both come to the same outcome, at every point of
a session, and what has been delivered before stays delivered.

## Main definitions

* `Reply`, `Reply.signal`: what the socket answers to a call, and what a session is told of it
* `SocketFault.outcome`: how a session ends that meets a failure
* `Session.Awaits`: a session that has subscribed waits for the answer to a call
* `Session.EndsWith`: how a session ends behind what it has been told, and what it has delivered

## Main results

* `Session.hearing_append`: what is heard later is heard with the wait in which the session stands
* `Session.endsWith_of_heard`: an answer that is heard as an ending ends the session
* `Session.readsSocket`: what a session makes of the failures and the bytes of a socket
-/

namespace MarketFeed

/-! ## Answers of a socket -/

/-- What the socket answers to a call. A stream that has ended gives nothing to a receive. -/
inductive Reply
  | connected (r : Except SocketFault Unit)
  | sent (r : Except SocketFault Unit)
  | received (r : Option (Except SocketFault Message))
  | pinged (r : Except SocketFault Unit)

/-- What a session is told of an answer. A failure to connect is one whatever its reason. -/
def Reply.signal : Reply → Signal
  | .connected r => .connected (r.mapError fun e => .connect s!"Failed to connect: {e.text}")
  | .sent r => .sent (r.mapError SocketFault.toFault)
  | .received r => .received (Inbound.ofReceived r)
  | .pinged r => .pinged (r.mapError SocketFault.toFault)

/-- a message in answer to a receive -/
def Reply.message (m : Message) : Reply := .received (some (.ok m))

/-- How a session ends that meets a failure: at once, if the connection is gone. -/
def SocketFault.outcome : SocketFault → Outcome
  | .closed | .alreadyClosed | .system _ | .breach .reset => .reconnectNow
  | _ => .reconnectAfterCooldown

theorem SocketFault.outcome_eq_ite (e : SocketFault) :
    e.outcome = if e.EndsConnection then .reconnectNow else .reconnectAfterCooldown := by
  cases e with
  | breach b => cases b <;> rfl
  | _ => rfl

/-- A session judges the fault that a send or a ping passes on. -/
theorem SocketFault.ofFault_toFault (e : SocketFault) : Outcome.ofFault e.toFault = e.outcome := by
  rw [outcome_eq_ite, toFault]
  split <;> rfl

/-- A receive judges some failures itself. -/
theorem ending?_unreceived (consumer : Bool) (e : SocketFault) :
    (Heard.mk consumer (.ofReceived (Inbound.ofReceived (some (.error e))))).ending? =
      some e.outcome := by
  rw [Inbound.ofReceived, SocketFault.outcome_eq_ite]
  split
  case isTrue => rfl
  case isFalse hlives =>
    rw [SocketFault.toFault, if_neg hlives]
    rfl

theorem ending?_unpinged (consumer : Bool) (e : SocketFault) :
    (Heard.mk consumer (.failure e.toFault)).ending? = some e.outcome :=
  congrArg some e.ofFault_toFault

/-- The bytes of a text are received as that text. -/
theorem signal_binary_bytesOf (s : String) :
    (Reply.message (.binary (Text.bytesOf s))).signal = (Reply.message (.text s)).signal := by
  have hdecode : Text.decodeBytes (Text.bytesOf s) = .ok s.toList :=
    Text.decodeBytes_eq_ok_iff.mpr (by rw [String.ofList_toList])
  simp only [Reply.message, Reply.signal, Inbound.ofReceived, Inbound.ofMessage, hdecode,
    String.ofList_toList]

/-- Other bytes are received as a failure, and the connection is still there. -/
theorem exists_ofReceived_binary {bytes : List UInt8} (h : ∀ s, bytes ≠ Text.bytesOf s) :
    ∃ reason, Inbound.ofReceived (some (.ok (.binary bytes))) = .error (.unreadable reason) := by
  cases hdecode : Text.decodeBytes bytes with
  | ok cs => exact absurd (Text.decodeBytes_eq_ok_iff.mp hdecode) (h _)
  | error f =>
    simp only [Inbound.ofReceived, Inbound.ofMessage, hdecode]
    exact ⟨_, rfl⟩

theorem Wait.hear?_received {w : Wait} (h : w.call = .receive) (now : ℕ)
    (r : Except Fault Inbound) : w.hear? now (.received r) = some (.ofReceived r) := by
  cases w with
  | probe => exact nomatch h
  | message | answer => rfl

theorem Wait.hear?_unpinged {w : Wait} (h : w.call = .ping) (now : ℕ) (f : Fault) :
    w.hear? now (.pinged (.error f)) = some (.failure f) := by
  cases w with
  | probe => rfl
  | message | answer => exact nomatch h

/-! ## Sessions that end -/

theorem lasting_append {hs hs' : List Heard} (h : hs.findSome? Heard.ending? = none) :
    lasting (hs ++ hs') = hs ++ lasting hs' := by
  refine List.takeWhile_append_of_pos fun x hx => ?_
  rw [List.findSome?_eq_none_iff.mp h x hx]
  rfl

theorem lasting_of_quiet {hs : List Heard} (h : hs.findSome? Heard.ending? = none) :
    lasting hs = hs := calc
  lasting hs = lasting (hs ++ []) := by rw [List.append_nil]
  _ = hs ++ [] := lasting_append h
  _ = hs := List.append_nil hs

namespace Session

variable {timing : Timing} {s : Session} {w w' : Wait} {o : Opening} {ms told : List Moment}
  {r : Reply} {outcome : Outcome} {ds : List Diff}

/-- A session that is still receiving has heard no ending, and hears what comes later as somebody
who begins with its wait. -/
theorem hearing_append (hstage : s.stage = .receiving w)
    (hstill : (s.run timing ms).1.stage = .receiving w') (ms' : List Moment) :
    w.hearing timing (ms ++ ms') = w.hearing timing ms ++ w'.hearing timing ms' := by
  induction ms generalizing s w with
  | nil =>
    obtain rfl := Stage.receiving.inj (hstage.symm.trans hstill)
    rfl
  | cons m ms ih =>
    rw [run_cons_fst] at hstill
    rw [List.cons_append, Wait.hearing, Wait.hearing]
    cases hheard : w.hear? m.now m.signal with
    | none =>
      rw [step_unheard hstage hheard] at hstill
      exact ih hstage hstill
    | some occurrence =>
      rw [step_heard hstage hheard] at hstill
      cases hending : (Heard.mk m.consumer occurrence).ending? with
      | none =>
        have hnext := (meet_lasting timing m.now s w hending).1
        exact congrArg (List.cons _) (ih hnext hstill)
      | some verdict =>
        have hend := (meet_ending timing m.now s w hending).1
        have hverdict := (run_verdict timing (congrArg Stage.verdict? hend) ms).2
        exact absurd (hverdict.symm.trans (congrArg Stage.verdict? hstill))
          (Option.some_ne_none verdict)

/-- A session that has subscribed and has been told something then waits for the answer to a
call. -/
def Awaits (timing : Timing) (o : Opening) (ms : List Moment) (c : Call) : Prop :=
  ∃ w, (start.1.run timing (o.moments ++ ms)).1.stage = .receiving w ∧ w.call = c

/-- the diffs of the frames that a session hears after its opening -/
def diffsHeard (timing : Timing) (o : Opening) (ms : List Moment) : List Diff :=
  ((o.wait timing).hearing timing ms).filterMap Heard.diff?

/-- Whatever comes later, a session that has been told this and then gets this answer has delivered
just these diffs, all before the answer, and has ended in this way once its connection is closed. -/
structure EndsWith (timing : Timing) (told : List Moment) (r : Reply) (outcome : Outcome)
    (ds : List Diff) : Prop where
  before : (performed timing told).filterMap Act.diff? = ds
  deliveries (now : ℕ) (consumer : Bool) (rest : List Moment) :
    (performed timing (told ++ ⟨now, consumer, r.signal⟩ :: rest)).filterMap Act.diff? = ds
  outcome (now : ℕ) (consumer : Bool) (rest : List Moment) (now' : ℕ) (consumer' : Bool) :
    ((start.1.run timing (told ++ ⟨now, consumer, r.signal⟩ :: rest)).1.step timing consumer' now'
      .closed).1.outcome? = some outcome

/-- A session that is settled delivers nothing any more. -/
theorem EndsWith.of_verdict (hbefore : (performed timing told).filterMap Act.diff? = ds)
    (hdeliveries : ∀ now consumer,
      (performed timing (told ++ [⟨now, consumer, r.signal⟩])).filterMap Act.diff? = ds)
    (hverdict : ∀ now consumer, (start.1.run timing
      (told ++ [⟨now, consumer, r.signal⟩])).1.stage.verdict? = some outcome) :
    EndsWith timing told r outcome ds where
  before := hbefore
  deliveries now consumer rest := by
    have hlater := (run_verdict timing (hverdict now consumer) rest).1
    rw [List.append_cons, performed, acts_append, ← List.append_assoc, List.filterMap_append,
      ← performed, hdeliveries, ← filterMap_deeds (fun _ => rfl), hlater]
    exact List.append_nil ds
  outcome now consumer rest now' consumer' := by
    rw [outcome?_step_closed, List.append_cons, run_append]
    exact (run_verdict timing (hverdict now consumer) rest).2

/-- **An answer that is heard as an ending ends the session**, with the diffs of the frames before
it delivered. -/
theorem endsWith_of_heard {occurrence : Occurrence}
    (hstage : (start.1.run timing (o.moments ++ ms)).1.stage = .receiving w)
    (hheard : ∀ now, w.hear? now r.signal = some occurrence)
    (hending : ∀ consumer, (Heard.mk consumer occurrence).ending? = some outcome) :
    EndsWith timing (o.moments ++ ms) r outcome (diffsHeard timing o ms) := by
  rw [run_append] at hstage
  have hquiet : ((o.wait timing).hearing timing ms).findSome? Heard.ending? = none := by
    rw [← (deeds_run (stage_run_opening timing o) ms).2, hstage]
    rfl
  have hhearing (now : ℕ) (consumer : Bool) :
      (o.wait timing).hearing timing (ms ++ [⟨now, consumer, r.signal⟩]) =
        (o.wait timing).hearing timing ms ++ [⟨consumer, occurrence⟩] := by
    rw [hearing_append (stage_run_opening timing o) hstage, Wait.hearing, hheard]
    rfl
  refine .of_verdict ?_ (fun now consumer => ?_) (fun now consumer => ?_)
  · rw [filterMap_diff?_performed, lasting_of_quiet hquiet, diffsHeard]
  · rw [List.append_assoc, filterMap_diff?_performed, hhearing, lasting_append hquiet,
      lasting_cons_of_some (hending consumer), List.append_nil, diffsHeard]
  · rw [List.append_assoc, run_append, (deeds_run (stage_run_opening timing o) _).2, hhearing,
      List.findSome?_append, hquiet, List.findSome?_singleton, hending]
    rfl

/-! ## What a session makes of a socket -/

/-- What a session makes of the failures of a socket and of binary messages. -/
structure ReadsSocket (timing : Timing) (o : Opening) (ms : List Moment) : Prop where
  /-- all failures to connect are the same -/
  unconnected (e : SocketFault) :
    EndsWith timing (o.moments.take 1) (.connected (.error e)) .reconnectAfterCooldown []
  unsent (e : SocketFault) :
    EndsWith timing (o.moments.take 2) (.sent (.error e)) e.outcome []
  /-- a receive has failed, be it one in time or one in answer to a probe -/
  unreceived (e : SocketFault) (h : Awaits timing o ms .receive) :
    EndsWith timing (o.moments ++ ms) (.received (some (.error e))) e.outcome
      (diffsHeard timing o ms)
  unpinged (e : SocketFault) (h : Awaits timing o ms .ping) :
    EndsWith timing (o.moments ++ ms) (.pinged (.error e)) e.outcome (diffsHeard timing o ms)
  /-- a session does not tell the bytes of a text from the text -/
  binary_text (text : String) (told rest : List Moment) (now : ℕ) (consumer : Bool) :
    start.1.run timing
        (told ++ ⟨now, consumer, (Reply.message (.binary (Text.bytesOf text))).signal⟩ :: rest) =
      start.1.run timing (told ++ ⟨now, consumer, (Reply.message (.text text)).signal⟩ :: rest)
  binary_other {bytes : List UInt8} (hbytes : ∀ text, bytes ≠ Text.bytesOf text)
    (h : Awaits timing o ms .receive) :
    EndsWith timing (o.moments ++ ms) (.message (.binary bytes)) .reconnectAfterCooldown
      (diffsHeard timing o ms)

/-- **A failure of the socket means the same wherever it strikes**, and the bytes of a binary
message count only as a text. -/
theorem readsSocket (timing : Timing) (o : Opening) (ms : List Moment) :
    ReadsSocket timing o ms where
  unconnected e := .of_verdict rfl (fun _ _ => rfl) (fun _ _ => rfl)
  unsent e := .of_verdict rfl (fun _ _ => rfl) fun _ _ => congrArg some e.ofFault_toFault
  unreceived e := by
    rintro ⟨w, hstage, hcall⟩
    exact endsWith_of_heard hstage (fun now => Wait.hear?_received hcall now _)
      fun consumer => ending?_unreceived consumer e
  unpinged e := by
    rintro ⟨w, hstage, hcall⟩
    exact endsWith_of_heard hstage (fun now => Wait.hear?_unpinged hcall now _)
      fun consumer => ending?_unpinged consumer e
  binary_text text told rest now consumer := by rw [signal_binary_bytesOf]
  binary_other {bytes} hbytes := by
    rintro ⟨w, hstage, hcall⟩
    obtain ⟨reason, hreceived⟩ := exists_ofReceived_binary hbytes
    refine endsWith_of_heard hstage (fun now => Wait.hear?_received hcall now _) fun consumer => ?_
    rw [hreceived]
    rfl

/-- a session that waits for ten milliseconds -/
def sampleTiming : Timing := ⟨10, 10, 5⟩

/-- an opening that takes two milliseconds -/
def sampleOpening : Opening := ⟨["BTC-USD"], (0, true), (1, true), (2, true)⟩

/-- A frame with a diff. -/
def sampleFrame : Moment :=
  ⟨3, true, .received (.ok (.text "\x7b\"type\": \"open\", \"sequence\": 7, \"side\": \"buy\",
    \"time\": \"2024-01-01T00:00:00Z\", \"product_id\": \"BTC-USD\", \"order_id\": \"a\",
    \"price\": \"1.5\", \"remaining_size\": \"2\"\x7d"))⟩

/-- Silence, and a ping that is sent. -/
def sampleProbe : List Moment := [⟨13, true, .tick⟩, ⟨14, true, .pinged (.ok ())⟩]

/-- What is sampled: how a session ends that awaits the answer to a call. -/
def SampleEnds (ms : List Moment) (c : Call) (r : Reply) (outcome : Outcome) : Prop :=
  Awaits sampleTiming sampleOpening ms c ∧
    EndsWith sampleTiming (sampleOpening.moments ++ ms) r outcome
      (diffsHeard sampleTiming sampleOpening ms)

/-- The connection is lost, a ping cannot be sent, nothing answers it, a message is no text. -/
theorem readsSocket_samples :
    (diffsHeard sampleTiming sampleOpening [sampleFrame]).length = 1 ∧
    SampleEnds [sampleFrame] .receive (.received (some (.error (.system "lost")))) .reconnectNow ∧
    SampleEnds (sampleFrame :: sampleProbe.take 1) .ping (.pinged (.error .bufferFull))
      .reconnectAfterCooldown ∧
    SampleEnds (sampleFrame :: sampleProbe) .receive (.received (some (.error (.breach .reset))))
      .reconnectNow ∧
    (∀ text, [0xFF] ≠ Text.bytesOf text) ∧
    SampleEnds (sampleFrame :: sampleProbe) .receive (.message (.binary [0xFF]))
      .reconnectAfterCooldown := by
  obtain ⟨hdiffs, hrun⟩ : (diffsHeard sampleTiming sampleOpening [sampleFrame]).length = 1 ∧
      (start.1.run sampleTiming (sampleOpening.moments ++ [sampleFrame])).1 =
        ⟨.receiving, .receiving (.message 13)⟩ := by
    decide +kernel
  have hawaits (ms : List Moment) (w : Wait)
      (hstage : ((⟨.receiving, .receiving (.message 13)⟩ : Session).run sampleTiming ms).1.stage =
        .receiving w) : Awaits sampleTiming sampleOpening (sampleFrame :: ms) w.call := by
    refine ⟨w, ?_, rfl⟩
    rw [List.append_cons, run_append, hrun]
    exact hstage
  have hmessage := hawaits [] (.message 13) rfl
  have hping := hawaits (sampleProbe.take 1) (.probe 23) rfl
  have hanswer := hawaits sampleProbe (.answer 23) rfl
  have hbroken (text : String) : [0xFF] ≠ Text.bytesOf text := by
    rw [← String.ofList_toList (s := text), ne_eq, ← Text.decodeBytes_eq_ok_iff]
    exact nofun
  refine ⟨hdiffs, ⟨hmessage, ?_⟩, ⟨hping, ?_⟩, ⟨hanswer, ?_⟩, hbroken, hanswer, ?_⟩
  · exact (readsSocket ..).unreceived _ hmessage
  · exact (readsSocket ..).unpinged _ hping
  · exact (readsSocket ..).unreceived _ hanswer
  · exact (readsSocket ..).binary_other hbroken hanswer

end Session

end MarketFeed
