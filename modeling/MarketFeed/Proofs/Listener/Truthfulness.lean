import MarketFeed.Proofs.Listener.Sessions

/-!
# What an onlooker sees of a listener

An onlooker who follows what a listener is told and what it does, and knows nothing of how it
works, can tell which connections are open, whether they have been closed, and what the listener
shows of itself. What the listener shows is true: it says that it is subscribed only when its
request has been sent, that it waits only when nothing is open, and it closes every connection
before it goes on.

## Main definitions

* `Happening`, `Listener.history`: what a listener is told and what it does, one after another
* `Onlooker`, `Onlooker.seen`: what can be known from that
* `Onlooker.Sound`, `Onlooker.Permits`: what holds at all times, and what may happen when
* `Listener.Stands`: what an onlooker knows of a listener, by where it stands

## Main results

* `Session.Known.step`, `Listener.Stands.step`: whatever happens is permitted and stays known
* `Listener.run_truthful`: all that happens in a run is permitted
-/

namespace MarketFeed

/-- Something that a listener is told or does. -/
inductive Happening
  | told (s : Signal)
  | did (a : Act)

/-- A signal and what is done about it. -/
def happenings (s : Signal) (acts : List Act) : List Happening := .told s :: acts.map .did

/-- What a listener is told and does, in order. -/
def Listener.history (timing : Timing) (l : Listener) : List Moment → List Happening
  | [] => []
  | m :: ms =>
    let r := l.step timing m.consumer m.now m.signal
    happenings m.signal r.2 ++ r.1.history timing ms

/-! ## The onlooker -/

/-- A connection, as an onlooker knows it. -/
structure Contact where
  /-- how often it has been asked to close -/
  closeCalls : ℕ
  isOpen : Bool

/-- What an onlooker knows. -/
structure Onlooker where
  /-- what has been shown since the session began, the latest first -/
  shown : List Status
  /-- the call that has not been answered -/
  pending : Option Call
  /-- the products that have been found out since the session began -/
  pairs : Option (List String)
  /-- the request that has been sent since the session began -/
  request : Option String
  /-- all connections that have been made, the latest first -/
  contacts : List Contact

namespace Onlooker

variable {o : Onlooker} {l : Contact}

/-- nothing is known before a listener begins -/
def start : Onlooker := ⟨[], none, none, none, []⟩

/-- what a listener shows -/
def status (o : Onlooker) : Status := o.shown.headD .disconnected

/-- the number of open connections -/
def openContacts (o : Onlooker) : ℕ := o.contacts.countP Contact.isOpen

/-- The latest connection is changed. -/
def onLatest (f : Contact → Contact) (o : Onlooker) : Onlooker :=
  { o with contacts := o.contacts.head?.toList.map f ++ o.contacts.tail }

/-- Something is shown. A session begins by showing that it connects. -/
def see (o : Onlooker) : Status → Onlooker
  | .connecting => { o with shown := [.connecting], pairs := none, request := none }
  | status => { o with shown := status :: o.shown }

/-- A call is made; a connection is asked to close by a call of its own. -/
def call (o : Onlooker) : Call → Onlooker
  | .close => { o.onLatest (fun l => { l with closeCalls := l.closeCalls + 1 }) with
      pending := some .close }
  | c => { o with pending := some c }

/-- Something is told. An answer counts if its call is pending; whoever cancels drops the
connection. -/
def hear (o : Onlooker) (s : Signal) : Onlooker :=
  match o.pending, s with
  | some .resolve, .resolved r => { o with pending := none, pairs := r.toOption }
  | some .connect, .connected (.ok _) =>
    { o with pending := none, contacts := ⟨0, true⟩ :: o.contacts }
  | some .connect, .connected (.error _) => { o with pending := none }
  | some (.send text), .sent (.ok _) => { o with pending := none, request := some text }
  | some (.send _), .sent (.error _) => { o with pending := none }
  | some .receive, .received _ | some .ping, .pinged _ => { o with pending := none }
  | some .close, .closed =>
    { o.onLatest (fun l => { l with isOpen := false }) with pending := none }
  | _, .cancelled =>
    { o with pending := none, contacts := o.contacts.map fun l => { l with isOpen := false } }
  | _, _ => o

/-- what is known after something has happened -/
def note (o : Onlooker) : Happening → Onlooker
  | .told s => o.hear s
  | .did (.publish status) => o.see status
  | .did (.call c) => o.call c
  | .did _ => o

theorem note_told (o : Onlooker) (s : Signal) : o.note (.told s) = o.hear s := rfl

/-- what is known after all that has happened -/
def seen (hs : List Happening) : Onlooker := hs.foldl note start

/-- All connections have been closed, each by a single call. -/
def Settled (contacts : List Contact) : Prop := ∀ l ∈ contacts, l.closeCalls = 1 ∧ l.isOpen = false

/-- At all times at most one connection is open, none has been asked to close twice, and a listener
that shows that it waits has none open. -/
structure Sound (o : Onlooker) : Prop where
  single : o.openContacts ≤ 1
  closeCalls_le : ∀ l ∈ o.contacts, l.closeCalls ≤ 1
  waits : o.status = .reconnectWait → o.openContacts = 0

/-- What may happen: a connection is made when all earlier ones are settled; being subscribed is
shown when the request for the products of the session has been sent, receiving when being
subscribed has been shown in the session, being disconnected when no connection is open; and from
being subscribed or receiving there is no way to connecting or waiting. -/
def Permits (o : Onlooker) : Happening → Prop
  | .did (.call .connect) => Settled o.contacts
  | .did (.publish .subscribed) => ∃ pairs ∈ o.pairs, o.request = some (subscribeText pairs)
  | .did (.publish .receiving) => .subscribed ∈ o.shown
  | .did (.publish .disconnected) => o.openContacts = 0
  | .did (.publish .connecting) | .did (.publish .reconnectWait) =>
    o.status ≠ .subscribed ∧ o.status ≠ .receiving
  | _ => True

/-- All of it is permitted when it happens, and leaves a sound state. -/
def Allows : Onlooker → List Happening → Prop
  | _, [] => True
  | o, h :: hs => o.Permits h ∧ (o.note h).Sound ∧ (o.note h).Allows hs

theorem seen_append (hs hs' : List Happening) :
    seen (hs ++ hs') = hs'.foldl note (seen hs) := List.foldl_append

theorem allows_append {hs hs' : List Happening} :
    o.Allows (hs ++ hs') ↔ o.Allows hs ∧ (hs.foldl note o).Allows hs' := by
  induction hs generalizing o with
  | nil => simp [Allows]
  | cons h hs ih => simp [Allows, ih, and_assoc]

/-- Every single thing that happens is permitted by what happened before. -/
theorem Allows.of_prefix {hs hs' : List Happening} {h : Happening} (hall : o.Allows hs)
    (hpre : hs' ++ [h] <+: hs) :
    (hs'.foldl note o).Permits h ∧ ((hs'.foldl note o).note h).Sound := by
  obtain ⟨rest, rfl⟩ := hpre
  obtain ⟨hpermits, hsound, -⟩ := (allows_append.mp (allows_append.mp hall).1).2
  exact ⟨hpermits, hsound⟩

/-! ### Connections that are settled -/

theorem Settled.closeCalls_le {contacts : List Contact} (h : Settled contacts) :
    ∀ l ∈ contacts, l.closeCalls ≤ 1 := fun l hl => (h l hl).1.le

theorem Settled.countP_isOpen {contacts : List Contact} (h : Settled contacts) :
    contacts.countP Contact.isOpen = 0 :=
  List.countP_eq_zero.mpr fun l hl => by simp [(h l hl).2]

theorem Settled.cons {contacts : List Contact} (h : Settled contacts) :
    Settled (⟨1, false⟩ :: contacts) :=
  List.forall_mem_cons.mpr ⟨⟨rfl, rfl⟩, h⟩

theorem sound_of_settled (h : Settled o.contacts) : o.Sound where
  single := h.countP_isOpen.le.trans (Nat.zero_le 1)
  closeCalls_le := h.closeCalls_le
  waits _ := h.countP_isOpen

theorem sound_of_open {old : List Contact} (hcontacts : o.contacts = l :: old) (hold : Settled old)
    (hcalls : l.closeCalls ≤ 1) (hstatus : o.status ≠ .reconnectWait) : o.Sound where
  single := by
    rw [openContacts, hcontacts, List.countP_cons, hold.countP_isOpen]
    split <;> simp
  closeCalls_le := by
    rw [hcontacts]
    exact List.forall_mem_cons.mpr ⟨hcalls, hold.closeCalls_le⟩
  waits h := absurd h hstatus

/-- Nothing is an answer when no call is pending. -/
theorem hear_of_pending_eq_none {signal : Signal} (hpending : o.pending = none)
    (hsignal : signal ≠ .cancelled) : o.hear signal = o := by
  unfold hear
  rw [hpending]
  cases signal with
  | cancelled => exact absurd rfl hsignal
  | _ => rfl

/-! ### Cancellation -/

theorem hear_cancelled (o : Onlooker) : o.hear .cancelled =
    { o with pending := none, contacts := o.contacts.map fun l => { l with isOpen := false } } := by
  unfold hear
  rcases o.pending with - | c
  · rfl
  · cases c <;> rfl

/-- Whoever cancels leaves no connection open. -/
theorem openContacts_hear_cancelled (o : Onlooker) : (o.hear .cancelled).openContacts = 0 := by
  rw [openContacts, hear_cancelled, List.countP_map]
  exact List.countP_eq_zero.mpr fun l _ => by simp

theorem Sound.closeCalls_hear_cancelled (h : o.Sound) :
    ∀ l ∈ (o.hear .cancelled).contacts, l.closeCalls ≤ 1 := by
  rw [hear_cancelled]
  exact List.forall_mem_map.mpr h.closeCalls_le

theorem Settled.hear_cancelled (h : Settled o.contacts) : Settled (o.hear .cancelled).contacts := by
  rw [Onlooker.hear_cancelled]
  exact List.forall_mem_map.mpr fun l hl => ⟨(h l hl).1, rfl⟩

theorem Sound.hear_cancelled (h : o.Sound) : (o.hear .cancelled).Sound where
  single := o.openContacts_hear_cancelled.le.trans (Nat.zero_le 1)
  closeCalls_le := h.closeCalls_hear_cancelled
  waits _ := o.openContacts_hear_cancelled

end Onlooker

/-! ## Sessions -/

namespace Onlooker

variable {o : Onlooker} {P : Onlooker → Prop} {hs hs' : List Happening} {s : Session} {n : ℕ}

/-- All of it is permitted, and something holds then. -/
def Follows (o : Onlooker) (hs : List Happening) (P : Onlooker → Prop) : Prop :=
  o.Allows hs ∧ P (hs.foldl note o)

theorem follows_nil (h : P o) : o.Follows [] P := ⟨trivial, h⟩

theorem follows_cons {h : Happening} (hpermits : o.Permits h) (hsound : (o.note h).Sound)
    (hrest : (o.note h).Follows hs P) : o.Follows (h :: hs) P :=
  ⟨⟨hpermits, hsound, hrest.1⟩, hrest.2⟩

theorem Follows.append {Q : Onlooker → Prop} (h : o.Follows hs P)
    (hrest : ∀ o', P o' → o'.Follows hs' Q) : o.Follows (hs ++ hs') Q := by
  obtain ⟨hallows, hthen⟩ := h
  obtain ⟨hallows', hthen'⟩ := hrest _ hthen
  exact ⟨allows_append.mpr ⟨hallows, hallows'⟩, by rwa [List.foldl_append]⟩

/-- The latest connection is open and has been asked to close so often, all others are settled, and
nothing says that the listener waits. -/
structure HasOpen (n : ℕ) (o : Onlooker) : Prop where
  contacts : ∃ old, o.contacts = ⟨n, true⟩ :: old ∧ Settled old
  status_ne : o.status ≠ .reconnectWait

theorem HasOpen.sound (h : o.HasOpen n) (hn : n ≤ 1) : o.Sound := by
  obtain ⟨old, hcontacts, hold⟩ := h.contacts
  exact sound_of_open hcontacts hold hn h.status_ne

end Onlooker

namespace Session

open Onlooker (Settled HasOpen)

variable {timing : Timing} {s : Session} {m : Moment} {o : Onlooker} {now : ℕ} {consumer : Bool}
  {signal : Signal}

/-- What an onlooker knows of a session, by its stage. -/
def KnownAt (o : Onlooker) : Stage → Prop
  | .resolving => o.pending = some .resolve ∧ Settled o.contacts ∧ o.status = .connecting
  | .connecting pairs =>
    o.pending = some .connect ∧ o.pairs = some pairs ∧ Settled o.contacts ∧ o.status = .connecting
  | .subscribing =>
    (∃ pairs ∈ o.pairs, o.pending = some (.send (subscribeText pairs))) ∧ o.HasOpen 0
  | .receiving w => o.pending = some w.call ∧ .subscribed ∈ o.shown ∧ o.HasOpen 0
  | .closing _ => o.pending = some .close ∧ o.HasOpen 1
  | .ended _ => o.pending = none ∧ Settled o.contacts ∧
    (o.status = .connecting ∨ o.status = .disconnected)

/-- What an onlooker knows of a session. -/
structure Known (s : Session) (o : Onlooker) : Prop where
  status : o.status = s.status
  stage : KnownAt o s.stage

theorem Known.sound (h : s.Known o) : o.Sound := by
  have hstage := h.stage
  cases hs : s.stage with
  | resolving =>
    rw [hs] at hstage
    exact Onlooker.sound_of_settled hstage.2.1
  | connecting pairs =>
    rw [hs] at hstage
    exact Onlooker.sound_of_settled hstage.2.2.1
  | subscribing =>
    rw [hs] at hstage
    exact hstage.2.sound (Nat.zero_le 1)
  | receiving w =>
    rw [hs] at hstage
    exact hstage.2.2.sound (Nat.zero_le 1)
  | closing out =>
    rw [hs] at hstage
    exact hstage.2.sound le_rfl
  | ended out =>
    rw [hs] at hstage
    exact Onlooker.sound_of_settled hstage.2.1

/-- What is told, and is no answer to the pending call, changes nothing. -/
theorem Known.stays (h : s.Known o) (hhear : o.hear signal = o)
    (hstep : s.step timing consumer now signal = s.stay) :
    o.Follows (happenings signal (s.step timing consumer now signal).2)
      (s.step timing consumer now signal).1.Known := by
  rw [hstep]
  have hnote : o.note (.told signal) = o := hhear
  refine Onlooker.follows_cons trivial ?_ (Onlooker.follows_nil ?_)
  · rw [hnote]
    exact h.sound
  · rw [hnote]
    exact h

/-! ### Receiving -/

/-- A session that awaits the next message asks for it. -/
theorem follows_listen (hopen : o.HasOpen 0) (hsubscribed : .subscribed ∈ o.shown)
    (hstatus : o.status = s.status) :
    o.Follows ((s.listen timing now).2.map .did) (s.listen timing now).1.Known := by
  have hopen' : (o.call .receive).HasOpen 0 := ⟨hopen.contacts, hopen.status_ne⟩
  refine Onlooker.follows_cons trivial (hopen'.sound (Nat.zero_le 1)) (Onlooker.follows_nil ?_)
  exact ⟨hstatus, rfl, hsubscribed, hopen'⟩

/-- A session that ends asks its connection to close, for the first time. -/
theorem follows_close (hopen : o.HasOpen 0) (hstatus : o.status = s.status) (out : Outcome) :
    o.Follows ((s.close out).2.map .did) (s.close out).1.Known := by
  obtain ⟨old, hcontacts, hold⟩ := hopen.contacts
  have hopen' : (o.call .close).HasOpen 1 :=
    ⟨⟨old, by simp [Onlooker.call, Onlooker.onLatest, hcontacts], hold⟩, hopen.status_ne⟩
  exact Onlooker.follows_cons trivial (hopen'.sound le_rfl)
    (Onlooker.follows_nil ⟨hstatus, rfl, hopen'⟩)

/-- A frame is handled without anything to see but what follows on it. -/
theorem follows_onText (hopen : o.HasOpen 0) (hsubscribed : .subscribed ∈ o.shown)
    (hstatus : o.status = s.status) (raw : String) :
    o.Follows ((s.onText timing consumer now raw).2.map .did)
      (s.onText timing consumer now raw).1.Known := by
  have hsound := hopen.sound (Nat.zero_le 1)
  unfold onText
  split
  · exact follows_close hopen hstatus _
  · exact Onlooker.follows_cons trivial hsound (follows_listen hopen hsubscribed hstatus)
  · split
    · exact Onlooker.follows_cons trivial hsound (follows_listen hopen hsubscribed hstatus)
    · exact follows_close hopen hstatus _

theorem follows_meet (hopen : o.HasOpen 0) (hsubscribed : .subscribed ∈ o.shown)
    (hstatus : o.status = s.status) (w : Wait) (occurrence : Occurrence) :
    o.Follows ((s.meet timing consumer now w occurrence).2.map .did)
      (s.meet timing consumer now w occurrence).1.Known := by
  cases occurrence with
  | frame raw =>
    have hopen' : (o.see .receiving).HasOpen 0 := ⟨hopen.contacts, nofun⟩
    refine Onlooker.follows_cons hsubscribed (hopen'.sound (Nat.zero_le 1)) ?_
    exact follows_onText hopen' (List.mem_cons_of_mem _ hsubscribed) rfl raw
  | control => exact follows_listen hopen hsubscribed hstatus
  | hangUp | failure | unanswered => exact follows_close hopen hstatus _
  | silence =>
    have hopen' : (o.call .ping).HasOpen 0 := ⟨hopen.contacts, hopen.status_ne⟩
    exact Onlooker.follows_cons trivial (hopen'.sound (Nat.zero_le 1))
      (Onlooker.follows_nil ⟨hstatus, rfl, hsubscribed, hopen'⟩)
  | pinged =>
    have hopen' : (o.call .receive).HasOpen 0 := ⟨hopen.contacts, hopen.status_ne⟩
    exact Onlooker.follows_cons trivial (hopen'.sound (Nat.zero_le 1))
      (Onlooker.follows_nil ⟨hstatus, rfl, hsubscribed, hopen'⟩)

/-- What is no occurrence is no answer to the call of a wait. -/
theorem hear_unheard {w : Wait} (hpending : o.pending = some w.call)
    (hsignal : signal ≠ .cancelled) (h : w.hear? now signal = none) : o.hear signal = o := by
  unfold Onlooker.hear
  rw [hpending]
  cases signal with
  | received r =>
    cases w with
    | probe => rfl
    | message | answer => exact nomatch h
  | pinged r =>
    cases w with
    | probe => cases r <;> exact nomatch h
    | message | answer => rfl
  | cancelled => exact absurd rfl hsignal
  | _ => cases w <;> rfl

/-- The answer to the call of a wait says nothing about connections. -/
theorem exists_hear_eq {w : Wait} (hpending : o.pending = some w.call)
    (hsignal : signal ≠ .cancelled) : ∃ pending, o.hear signal = { o with pending } := by
  have hsame : o = { o with pending := o.pending } := rfl
  unfold Onlooker.hear
  rw [hpending]
  cases signal with
  | received r => cases w <;> first | exact ⟨none, rfl⟩ | exact ⟨_, hsame⟩
  | pinged r => cases w <;> first | exact ⟨none, rfl⟩ | exact ⟨_, hsame⟩
  | cancelled => exact absurd rfl hsignal
  | _ => cases w <;> exact ⟨_, hsame⟩

theorem Known.step_receiving {w : Wait} (h : s.Known o) (hstage : s.stage = .receiving w)
    (hsignal : signal ≠ .cancelled) :
    o.Follows (happenings signal (s.step timing consumer now signal).2)
      (s.step timing consumer now signal).1.Known := by
  have hknown := h.stage
  rw [hstage] at hknown
  obtain ⟨hpending, hsubscribed, hopen⟩ := hknown
  cases hheard : w.hear? now signal with
  | none => exact h.stays (hear_unheard hpending hsignal hheard) (step_unheard hstage hheard)
  | some occurrence =>
    rw [step_heard hstage hheard]
    obtain ⟨pending, hhear⟩ := exists_hear_eq hpending hsignal
    have hopen' : (o.hear signal).HasOpen 0 := by
      rw [hhear]
      exact ⟨hopen.contacts, hopen.status_ne⟩
    refine Onlooker.follows_cons trivial (hopen'.sound (Nat.zero_le 1)) ?_
    refine follows_meet hopen' ?_ ?_ w occurrence
    · rw [hhear]
      exact hsubscribed
    · rw [hhear]
      exact h.status

/-! ### All stages -/

/-- A session whose opening fails has ended, with nothing open. -/
theorem follows_abandon (hpending : o.pending = none) (hsettled : Settled o.contacts)
    (hconnecting : o.status = .connecting) (hstatus : o.status = s.status) :
    o.Follows (s.abandon.2.map .did) s.abandon.1.Known :=
  Onlooker.follows_nil ⟨hstatus, hpending, hsettled, .inl hconnecting⟩

theorem Known.step_resolving (h : s.Known o) (hstage : s.stage = .resolving)
    (hsignal : signal ≠ .cancelled) :
    o.Follows (happenings signal (s.step timing consumer now signal).2)
      (s.step timing consumer now signal).1.Known := by
  have hstatus := h.status
  have hknown := h.stage
  rw [hstage] at hknown
  obtain ⟨hpending, hsettled, hconnecting⟩ := hknown
  cases signal with
  | resolved r =>
    have hhear : o.hear (.resolved r) = { o with pending := none, pairs := r.toOption } := by
      unfold Onlooker.hear
      rw [hpending]
    unfold Session.step
    rw [hstage]
    refine Onlooker.follows_cons trivial ?_ ?_ <;> rw [Onlooker.note_told, hhear]
    · exact Onlooker.sound_of_settled hsettled
    · cases r with
      | error f => exact follows_abandon rfl hsettled hconnecting hstatus
      | ok pairs =>
        exact Onlooker.follows_cons hsettled (Onlooker.sound_of_settled hsettled)
          (Onlooker.follows_nil ⟨hstatus, rfl, rfl, hsettled, hconnecting⟩)
  | cancelled => exact absurd rfl hsignal
  | _ =>
    exact h.stays (by unfold Onlooker.hear; rw [hpending]) (by unfold Session.step; rw [hstage])

theorem Known.step_connecting {pairs : List String} (h : s.Known o)
    (hstage : s.stage = .connecting pairs) (hsignal : signal ≠ .cancelled) :
    o.Follows (happenings signal (s.step timing consumer now signal).2)
      (s.step timing consumer now signal).1.Known := by
  have hstatus := h.status
  have hknown := h.stage
  rw [hstage] at hknown
  obtain ⟨hpending, hpairs, hsettled, hconnecting⟩ := hknown
  cases signal with
  | connected r =>
    unfold Session.step
    rw [hstage]
    cases r with
    | error f =>
      have hhear : o.hear (.connected (.error f)) = { o with pending := none } := by
        unfold Onlooker.hear
        rw [hpending]
      refine Onlooker.follows_cons trivial ?_ ?_ <;> rw [Onlooker.note_told, hhear]
      · exact Onlooker.sound_of_settled hsettled
      · exact follows_abandon rfl hsettled hconnecting hstatus
    | ok u =>
      have hhear : o.hear (.connected (.ok u)) =
          { o with pending := none, contacts := ⟨0, true⟩ :: o.contacts } := by
        unfold Onlooker.hear
        rw [hpending]
      have hwaits : o.status ≠ .reconnectWait := by
        rw [hconnecting]
        exact nofun
      have hsound (pending : Option Call) :
          { o with pending, contacts := ⟨0, true⟩ :: o.contacts }.HasOpen 0 :=
        ⟨⟨o.contacts, rfl, hsettled⟩, hwaits⟩
      refine Onlooker.follows_cons trivial ?_ ?_ <;> rw [Onlooker.note_told, hhear]
      · exact (hsound none).sound (Nat.zero_le 1)
      · exact Onlooker.follows_cons trivial ((hsound _).sound (Nat.zero_le 1))
          (Onlooker.follows_nil ⟨hstatus, ⟨pairs, hpairs, rfl⟩, hsound _⟩)
  | cancelled => exact absurd rfl hsignal
  | _ =>
    exact h.stays (by unfold Onlooker.hear; rw [hpending]) (by unfold Session.step; rw [hstage])

theorem Known.step_subscribing (h : s.Known o) (hstage : s.stage = .subscribing)
    (hsignal : signal ≠ .cancelled) :
    o.Follows (happenings signal (s.step timing consumer now signal).2)
      (s.step timing consumer now signal).1.Known := by
  have hstatus := h.status
  have hknown := h.stage
  rw [hstage] at hknown
  obtain ⟨⟨pairs, hpairs, hpending⟩, hopen⟩ := hknown
  cases signal with
  | sent r =>
    unfold Session.step
    rw [hstage]
    cases r with
    | error f =>
      have hhear : o.hear (.sent (.error f)) = { o with pending := none } := by
        unfold Onlooker.hear
        rw [hpending]
      have hopen' : { o with pending := none }.HasOpen 0 := ⟨hopen.contacts, hopen.status_ne⟩
      refine Onlooker.follows_cons trivial ?_ ?_ <;> rw [Onlooker.note_told, hhear]
      · exact hopen'.sound (Nat.zero_le 1)
      · exact follows_close hopen' hstatus _
    | ok u =>
      have hhear : o.hear (.sent (.ok u)) =
          { o with pending := none, request := some (subscribeText pairs) } := by
        unfold Onlooker.hear
        rw [hpending]
      refine Onlooker.follows_cons trivial ?_ ?_ <;> rw [Onlooker.note_told, hhear]
      · exact HasOpen.sound ⟨hopen.contacts, hopen.status_ne⟩ (Nat.zero_le 1)
      · refine Onlooker.follows_cons ⟨pairs, hpairs, rfl⟩ ?_ ?_
        · exact HasOpen.sound ⟨hopen.contacts, nofun⟩ (Nat.zero_le 1)
        · exact follows_listen ⟨hopen.contacts, nofun⟩ List.mem_cons_self rfl
  | cancelled => exact absurd rfl hsignal
  | _ =>
    exact h.stays (by unfold Onlooker.hear; rw [hpending]) (by unfold Session.step; rw [hstage])

theorem Known.step_closing {out : Outcome} (h : s.Known o) (hstage : s.stage = .closing out)
    (hsignal : signal ≠ .cancelled) :
    o.Follows (happenings signal (s.step timing consumer now signal).2)
      (s.step timing consumer now signal).1.Known := by
  have hknown := h.stage
  rw [hstage] at hknown
  obtain ⟨hpending, ⟨old, hcontacts, hold⟩, -⟩ := hknown
  cases signal with
  | closed =>
    have hhear : o.hear .closed = { o with pending := none, contacts := ⟨1, false⟩ :: old } := by
      unfold Onlooker.hear
      rw [hpending, Onlooker.onLatest, hcontacts]
      rfl
    unfold Session.step
    rw [hstage]
    refine Onlooker.follows_cons trivial ?_ ?_ <;> rw [Onlooker.note_told, hhear]
    · exact Onlooker.sound_of_settled hold.cons
    · exact Onlooker.follows_cons hold.cons.countP_isOpen (Onlooker.sound_of_settled hold.cons)
        (Onlooker.follows_nil ⟨rfl, rfl, hold.cons, .inr rfl⟩)
  | cancelled => exact absurd rfl hsignal
  | _ =>
    exact h.stays (by unfold Onlooker.hear; rw [hpending]) (by unfold Session.step; rw [hstage])

/-- **Whatever a session is told and does is permitted**, and an onlooker goes on to know it. -/
theorem Known.step (h : s.Known o) (hsignal : signal ≠ .cancelled) :
    o.Follows (happenings signal (s.step timing consumer now signal).2)
      (s.step timing consumer now signal).1.Known := by
  cases hstage : s.stage with
  | resolving => exact h.step_resolving hstage hsignal
  | connecting pairs => exact h.step_connecting hstage hsignal
  | subscribing => exact h.step_subscribing hstage hsignal
  | receiving w => exact h.step_receiving hstage hsignal
  | closing out => exact h.step_closing hstage hsignal
  | ended out =>
    have hknown := h.stage
    rw [hstage] at hknown
    have hstep : s.step timing consumer now signal = s.stay := by
      unfold Session.step
      rw [hstage]
    exact h.stays (Onlooker.hear_of_pending_eq_none hknown.1 hsignal) hstep

end Session

/-! ## Listeners -/

namespace Listener

open Onlooker (Settled)

variable {timing : Timing} {l : Listener} {m : Moment} {ms : List Moment} {o : Onlooker}
  {s : Session} {now : ℕ}

deriving instance DecidableEq for Listener

/-- What an onlooker knows of a listener, by where it stands. -/
inductive Stands : Listener → Onlooker → Prop
  | idle : Stands .idle .start
  | session {s : Session} {o : Onlooker} (h : s.Known o) (hgoing : s.outcome? = none) :
    Stands (.session s) o
  | cooling {d : ℕ} {o : Onlooker} (hpending : o.pending = none) (hsettled : Settled o.contacts)
    (hstatus : o.status = .reconnectWait) : Stands (.cooling d) o
  | stopped {r : Except Fault Unit} {o : Onlooker} (hpending : o.pending = none)
    (hopen : o.openContacts = 0) (hcalls : ∀ l ∈ o.contacts, l.closeCalls ≤ 1)
    (hstatus : o.status = .disconnected)
    (hsettled : r = .error .consumerGone → Settled o.contacts) :
    Stands (.stopped r) o

theorem Stands.status (h : l.Stands o) : o.status = l.status := by
  cases h with
  | idle => rfl
  | session h => exact h.status
  | cooling _ _ hstatus => exact hstatus
  | stopped _ _ _ hstatus => exact hstatus

theorem Stands.sound (h : l.Stands o) : o.Sound := by
  cases h with
  | idle => exact Onlooker.sound_of_settled nofun
  | session h => exact h.sound
  | cooling _ hsettled => exact Onlooker.sound_of_settled hsettled
  | stopped _ hopen hcalls => exact ⟨hopen.le.trans (Nat.zero_le 1), hcalls, fun _ => hopen⟩

/-- A new session may begin when everything is settled. -/
theorem follows_begin (hsettled : Settled o.contacts)
    (hstatus : o.status ≠ .subscribed ∧ o.status ≠ .receiving) :
    o.Follows (begin.2.map .did) begin.1.Stands := by
  refine Onlooker.follows_cons hstatus (Onlooker.sound_of_settled hsettled) ?_
  refine Onlooker.follows_cons trivial (Onlooker.sound_of_settled hsettled) ?_
  exact Onlooker.follows_nil (.session ⟨rfl, rfl, hsettled, rfl⟩ rfl)

/-- What follows on the end of a session is permitted. -/
theorem follows_next (timing : Timing) (now : ℕ) {out : Outcome} (h : s.Known o)
    (hout : s.outcome? = some out) :
    o.Follows ((next timing now out).2.map .did) (next timing now out).1.Stands := by
  have hknown := h.stage
  cases hstage : s.stage with
  | ended out' =>
    rw [hstage] at hknown
    obtain ⟨hpending, hsettled, hstatus⟩ := hknown
    have hsound := Onlooker.sound_of_settled hsettled
    have hleft : o.status ≠ .subscribed ∧ o.status ≠ .receiving := by
      rcases hstatus with hstatus | hstatus <;> rw [hstatus] <;> exact ⟨nofun, nofun⟩
    cases out with
    | reconnectNow =>
      exact Onlooker.follows_cons trivial hsound (follows_begin hsettled hleft)
    | reconnectAfterCooldown =>
      refine Onlooker.follows_cons trivial hsound (Onlooker.follows_cons hleft ?_ ?_)
      · exact Onlooker.sound_of_settled hsettled
      · exact Onlooker.follows_nil (.cooling hpending hsettled rfl)
    | terminate =>
      refine Onlooker.follows_cons hsettled.countP_isOpen (Onlooker.sound_of_settled hsettled) ?_
      exact Onlooker.follows_nil (.stopped hpending hsettled.countP_isOpen hsettled.closeCalls_le
        rfl fun _ => hsettled)
  | _ => simp [Session.outcome?, hstage] at hout

/-- What is told, and is no answer to a pending call, changes nothing. -/
theorem Stands.stays (h : l.Stands o) (hhear : o.hear m.signal = o)
    (hstep : l.step timing m.consumer m.now m.signal = (l, [])) :
    o.Follows (happenings m.signal (l.step timing m.consumer m.now m.signal).2)
      (l.step timing m.consumer m.now m.signal).1.Stands := by
  have hnote : o.note (.told m.signal) = o := hhear
  rw [hstep]
  refine Onlooker.follows_cons trivial ?_ (Onlooker.follows_nil ?_) <;> rw [hnote]
  · exact h.sound
  · exact h

/-- Whoever cancels drops what is open, and a listener that has not stopped stops then. -/
theorem Stands.follows_cancelled (h : l.Stands o) :
    o.Follows (happenings .cancelled (l.step timing m.consumer m.now .cancelled).2)
      (l.step timing m.consumer m.now .cancelled).1.Stands := by
  have hsound := h.sound.hear_cancelled
  have hnone := o.openContacts_hear_cancelled
  have hpending : (o.hear .cancelled).pending = none := by rw [Onlooker.hear_cancelled]
  have hcalls := h.sound.closeCalls_hear_cancelled
  by_cases hgoing : ∀ r, l ≠ .stopped r
  · rw [step_cancelled timing hgoing]
    refine Onlooker.follows_cons trivial hsound (Onlooker.follows_cons hnone ?_ ?_)
    · exact ⟨hsound.single, hsound.closeCalls_le, nofun⟩
    · exact Onlooker.follows_nil (.stopped hpending hnone hcalls rfl nofun)
  · push Not at hgoing
    obtain ⟨r, rfl⟩ := hgoing
    cases h with
    | stopped _ _ _ hstatus hsettled =>
      refine Onlooker.follows_cons trivial hsound (Onlooker.follows_nil ?_)
      refine .stopped hpending hnone hcalls ?_ fun hr => (hsettled hr).hear_cancelled
      rw [Onlooker.note_told, Onlooker.hear_cancelled]
      exact hstatus

/-- **Whatever a listener is told and does is permitted**, and an onlooker goes on to know where it
stands. -/
theorem Stands.step (h : l.Stands o) :
    o.Follows (happenings m.signal (l.step timing m.consumer m.now m.signal).2)
      (l.step timing m.consumer m.now m.signal).1.Stands := by
  by_cases hsignal : m.signal = .cancelled
  · rw [hsignal]
    exact h.follows_cancelled
  have hunheard (hpending : o.pending = none) : o.hear m.signal = o :=
    Onlooker.hear_of_pending_eq_none hpending hsignal
  cases hl : h with
  | idle =>
    cases htold : m.signal with
    | cancelled => exact absurd htold hsignal
    | tick =>
      exact Onlooker.follows_cons trivial h.sound
        (follows_begin (List.forall_mem_nil _) (by decide))
    | _ =>
      rw [← htold]
      exact h.stays (hunheard rfl) (by rw [htold]; rfl)
  | session hknown hgoing =>
    rename_i s
    rw [step_session hsignal, settle]
    have hfollows : o.Follows (happenings m.signal (s.step timing m.consumer m.now m.signal).2)
        (s.step timing m.consumer m.now m.signal).1.Known := hknown.step hsignal
    cases hend : (s.step timing m.consumer m.now m.signal).1.outcome? with
    | none => exact ⟨hfollows.1, .session hfollows.2 hend⟩
    | some out =>
      have hnext := hfollows.append fun _ hknown => follows_next timing m.now hknown hend
      rwa [happenings, List.cons_append, ← List.map_append] at hnext
  | cooling hpending hsettled hstatus =>
    rename_i d
    cases htold : m.signal with
    | cancelled => exact absurd htold hsignal
    | tick =>
      rw [← htold]
      by_cases hdue : d ≤ m.now
      · rw [step_cooling_tick htold, if_pos hdue]
        have hnote : o.note (.told m.signal) = o := hunheard hpending
        refine Onlooker.follows_cons trivial ?_ ?_ <;> rw [hnote]
        · exact h.sound
        · exact follows_begin hsettled (by rw [hstatus]; decide)
      · exact h.stays (hunheard hpending) ((step_cooling_tick htold).trans (if_neg hdue))
    | _ =>
      rw [← htold]
      exact h.stays (hunheard hpending) (by rw [htold]; rfl)
  | stopped hpending => exact h.stays (hunheard hpending) rfl

/-- All that happens in a run is permitted, and in the end it is known where the listener stands. -/
theorem Stands.run (timing : Timing) (h : l.Stands o) (ms : List Moment) :
    o.Follows (l.history timing ms) (l.run timing ms).1.Stands := by
  induction ms generalizing l o with
  | nil => exact Onlooker.follows_nil h
  | cons m ms ih => exact h.step.append fun _ hnext => ih hnext

/-- **A listener tells the truth about its connections.** Whatever it is told, be it cancelled or
not: whatever happens is permitted by what has happened before, and leaves a sound state; and when
the listener has stopped, it shows that it is disconnected, nothing is open, and, unless it was
cancelled, everything is settled. -/
theorem run_truthful (timing : Timing) (ms : List Moment) :
    (∀ hs h, hs ++ [h] <+: idle.history timing ms →
      (Onlooker.seen hs).Permits h ∧ (Onlooker.seen (hs ++ [h])).Sound) ∧
    (Onlooker.seen (idle.history timing ms)).status = (idle.run timing ms).1.status ∧
    ∀ r, (idle.run timing ms).1 = .stopped r →
      (Onlooker.seen (idle.history timing ms)).status = .disconnected ∧
      (Onlooker.seen (idle.history timing ms)).openContacts = 0 ∧
      ((∀ m ∈ ms, m.signal ≠ .cancelled) →
        Settled (Onlooker.seen (idle.history timing ms)).contacts) := by
  obtain ⟨hallows, hstands⟩ := Stands.idle.run timing ms
  refine ⟨fun hs h hpre => ?_, hstands.status, fun r hr => ?_⟩
  · rw [Onlooker.seen_append]
    exact hallows.of_prefix hpre
  · have hend : (Listener.stopped r).Stands (Onlooker.seen (idle.history timing ms)) := hr ▸ hstands
    cases hend with
    | stopped _ hopen _ hstatus hsettled =>
      refine ⟨hstatus, hopen, fun hsignals => ?_⟩
      obtain ⟨xs, hxs⟩ := exists_recounted timing hsignals
      exact hsettled ((hxs.returns r).mp hr).1

/-- A listener that finds its consumer gone when the first diff arrives. -/
def forsakenMoments : List Moment := [
  ⟨0, true, .tick⟩, ⟨0, true, .resolved (.ok ["BTC-USD"])⟩, ⟨1, true, .connected (.ok ())⟩,
  ⟨2, true, .sent (.ok ())⟩,
  ⟨3, false, .received (.ok (.text "\x7b\"type\": \"open\", \"sequence\": 7, \"side\": \"buy\",
    \"time\": \"2024-01-01T00:00:00Z\", \"product_id\": \"BTC-USD\", \"order_id\": \"a\",
    \"price\": \"1.5\", \"remaining_size\": \"2\"\x7d"))⟩,
  ⟨3, false, .closed⟩]

theorem run_truthful_sample :
    (∀ m ∈ forsakenMoments, m.signal ≠ .cancelled) ∧
      (idle.run ⟨10, 10, 5⟩ forsakenMoments).1 = .stopped (.error .consumerGone) ∧
        Settled (Onlooker.seen (idle.history ⟨10, 10, 5⟩ forsakenMoments)).contacts := by
  have hsignals : ∀ m ∈ forsakenMoments, m.signal ≠ .cancelled := by simp [forsakenMoments]
  have hgone : (idle.run ⟨10, 10, 5⟩ forsakenMoments).1 = .stopped (.error .consumerGone) := by
    decide +kernel
  exact ⟨hsignals, hgone, ((run_truthful _ _).2.2 _ hgone).2.2 hsignals⟩

end Listener

end MarketFeed
