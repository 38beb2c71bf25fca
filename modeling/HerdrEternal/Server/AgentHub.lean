import HerdrEternal.Lib.Machine
import HerdrEternal.Lib.Pump
import HerdrEternal.Lib.Table
import HerdrEternal.Server.OutboundLog
import Mathlib.Algebra.Group.Nat.Defs

/-!
# The agent hub

`AgentHub` of `server/src/agent.rs` connects the programs that talk to the forwarded agent socket
with the clients that attached an agent channel. Three kinds of tasks share it:

* a *relay* (`relay_agent_stream`) serves one accepted connection: it takes an id, registers its
  inbox in `streams`, announces itself with `AgentOpen`, and then pumps bytes both ways;
* a *channel* (`handle_agent_channel`) puts its queue into the hub's `channel` slot, sends what is
  queued to its client and gives what the client sends to the relays, until the connection ends;
* everyone who sends to a client sends to the channel that is in the slot at that moment.

Every access to the hub's shared state is one step, so tasks interleave between any two of them.
Channels and relays are known by their position, in the order in which they came. What a channel's
queue ever held is kept in `queued`, and `sent` counts how much of it was taken out.
-/

namespace HerdrEternal

/-! ## Relays -/

/-- Where `relay_agent_stream` is suspended. -/
inductive RelayPc where
  /-- In `channel_attached`. -/
  | waiting
  | numbering
  | registering (id : Nat)
  | opening (id : Nat)
  /-- There was no channel to announce the stream to. -/
  | unregistering (id : Nat)
  /-- In the loop, or just out of it. -/
  | relaying (id : Nat)
  | closing (id : Nat)
  | ended (id : Option Nat)
  deriving DecidableEq

/-- The id, once it was taken. -/
def RelayPc.id? : RelayPc → Option Nat
  | .waiting | .numbering => none
  | .registering id | .opening id | .unregistering id | .relaying id | .closing id => some id
  | .ended id => id

/-- One accepted connection. -/
structure AgentRelay where
  pc : RelayPc
  pump : Pump UInt8
  /-- The channel its `AgentOpen` was put on. -/
  channel : Option Nat
  deriving DecidableEq

inductive RelayEvent where
  | attached
  | timedOut
  | number
  | register
  | sendOpen
  | io (e : PumpIo UInt8)
  | sendData
  | inboxClosed
  | remove
  | sendClose
  deriving DecidableEq

/-- What a step of a relay does to the hub. -/
inductive HubEffect where
  | nothing
  /-- `next_id.fetch_add`. -/
  | number
  | insert (id : Nat)
  | remove (id : Nat)
  /-- `send_to_channel`. -/
  | send (m : Msg)
  deriving DecidableEq

namespace AgentRelay

def start : AgentRelay := ⟨.waiting, .start, none⟩

/-- One step of `relay_agent_stream`, with what it sees of the hub: the channel in the slot, the
next id, and whether the sender of its inbox is still registered. -/
def step (channel : Option Nat) (nextId : Nat) (registered : Bool) (r : AgentRelay)
    (e : RelayEvent) : Option (AgentRelay × HubEffect) :=
  match r.pc, e with
  | .waiting, .attached =>
    if channel.isSome then some ({ r with pc := .numbering }, .nothing) else none
  | .waiting, .timedOut => some ({ r with pc := .ended none }, .nothing)
  | .numbering, .number => some ({ r with pc := .registering nextId }, .number)
  | .registering id, .register => some ({ r with pc := .opening id }, .insert id)
  | .opening id, .sendOpen =>
    match channel with
    | some k => some ({ r with pc := .relaying id, channel := some k }, .send (.agentOpen id))
    | none => some ({ r with pc := .unregistering id }, .nothing)
  | .unregistering id, .remove => some ({ r with pc := .ended (some id) }, .remove id)
  | .relaying _, .io e => (r.pump.io 4096 e).map fun pump => ({ r with pump := pump }, .nothing)
  | .relaying id, .sendData =>
    match r.pump.pc with
    | .handing data =>
      some ({ r with pump := r.pump.handed channel.isSome }, .send (.agentData id data))
    | _ => none
  | .relaying _, .inboxClosed =>
    if registered then none
    else r.pump.inboxClosed.map fun pump => ({ r with pump := pump }, .nothing)
  | .relaying id, .remove =>
    if r.pump.running then none else some ({ r with pc := .closing id }, .remove id)
  | .closing id, .sendClose => some ({ r with pc := .ended (some id) }, .send (.agentClose id))
  | _, _ => none

/-- Every step of a relay. -/
inductive Step (channel : Option Nat) (nextId : Nat) (registered : Bool) (r : AgentRelay) :
    RelayEvent → AgentRelay → HubEffect → Prop
  | attached (hp : r.pc = .waiting) (hc : channel.isSome = true) :
      Step channel nextId registered r .attached { r with pc := .numbering } .nothing
  | timedOut (hp : r.pc = .waiting) :
      Step channel nextId registered r .timedOut { r with pc := .ended none } .nothing
  | number (hp : r.pc = .numbering) :
      Step channel nextId registered r .number { r with pc := .registering nextId } .number
  | register {id : Nat} (hp : r.pc = .registering id) :
      Step channel nextId registered r .register { r with pc := .opening id } (.insert id)
  | sendOpen {id k : Nat} (hp : r.pc = .opening id) (hc : channel = some k) :
      Step channel nextId registered r .sendOpen
        { r with pc := .relaying id, channel := some k } (.send (.agentOpen id))
  | notOpened {id : Nat} (hp : r.pc = .opening id) (hc : channel = none) :
      Step channel nextId registered r .sendOpen { r with pc := .unregistering id } .nothing
  | unregister {id : Nat} (hp : r.pc = .unregistering id) :
      Step channel nextId registered r .remove { r with pc := .ended (some id) } (.remove id)
  | io {id : Nat} {e : PumpIo UInt8} {pump : Pump UInt8} (hp : r.pc = .relaying id)
      (hio : Pump.Io 4096 r.pump e pump) :
      Step channel nextId registered r (.io e) { r with pump := pump } .nothing
  | sendData {id : Nat} {data : Data} (hp : r.pc = .relaying id)
      (hh : r.pump.pc = .handing data) :
      Step channel nextId registered r .sendData
        { r with pump := r.pump.handed channel.isSome } (.send (.agentData id data))
  | inboxClosed {id : Nat} (hp : r.pc = .relaying id) (hr : registered = false)
      (hi : r.pump.pc = .idle) (hin : r.pump.inbox = []) :
      Step channel nextId registered r .inboxClosed
        { r with pump := { r.pump with pc := .stopped .inbox } } .nothing
  | remove {id : Nat} (hp : r.pc = .relaying id) (hs : r.pump.running = false) :
      Step channel nextId registered r .remove { r with pc := .closing id } (.remove id)
  | sendClose {id : Nat} (hp : r.pc = .closing id) :
      Step channel nextId registered r .sendClose { r with pc := .ended (some id) }
        (.send (.agentClose id))

theorem Step.of_step {channel : Option Nat} {nextId : Nat} {registered : Bool}
    {r r' : AgentRelay} {e : RelayEvent} {f : HubEffect}
    (h : r.step channel nextId registered e = some (r', f)) :
    Step channel nextId registered r e r' f := by
  unfold step at h
  split at h
  · split_ifs at h with hc
    cases h; exact .attached ‹_› hc
  · cases h; exact .timedOut ‹_›
  · cases h; exact .number ‹_›
  · cases h; exact .register ‹_›
  · split at h
    · cases h; exact .sendOpen ‹_› rfl
    · cases h; exact .notOpened ‹_› rfl
  · cases h; exact .unregister ‹_›
  · obtain ⟨pump, hio, heq⟩ := Option.map_eq_some_iff.mp h
    cases heq
    exact .io ‹_› (.of_io hio)
  · split at h
    · cases h; exact .sendData ‹_› ‹_›
    · cases h
  · rename_i id hp
    split_ifs at h with hr
    obtain ⟨pump, hio, heq⟩ := Option.map_eq_some_iff.mp h
    obtain ⟨hi, hin, rfl⟩ := Pump.inboxClosed_eq_some hio
    cases heq
    exact .inboxClosed hp ((Bool.not_eq_true _).mp hr) hi hin
  · split_ifs at h with hs
    cases h; exact .remove ‹_› ((Bool.not_eq_true _).mp hs)
  · cases h; exact .sendClose ‹_›
  · cases h

end AgentRelay

/-! ## Channels -/

/-- Where `handle_agent_channel` is suspended. -/
inductive ChannelPc where
  | select
  | sending
  /-- Out of the loop, with the hub's slot still to be looked at. -/
  | ended
  | detached
  deriving DecidableEq

/-- An attached agent channel. -/
structure HubChannel where
  pc : ChannelPc
  /-- Everything that was put on its queue. -/
  queued : List Msg
  /-- How much of it was taken from the queue, to be sent on the connection. -/
  sent : Nat
  deriving DecidableEq

inductive ChannelEvent where
  | recv
  | sent
  | sendFailed
  | frame (m : Msg)
  | badFrame
  | datagram
  | closed
  | failed
  | detach
  deriving DecidableEq

namespace HubChannel

def start : HubChannel := ⟨.select, [], 0⟩

/-- The loop of the channel runs. -/
def attached (c : HubChannel) : Bool := c.pc = .select || c.pc = .sending

def enqueue (c : HubChannel) (m : Msg) : HubChannel := { c with queued := c.queued ++ [m] }

/-- The steps of `handle_agent_channel` that leave the hub alone. -/
def step (c : HubChannel) (e : ChannelEvent) : Option HubChannel :=
  match c.pc, e with
  | .select, .recv =>
    if c.sent < c.queued.length then some { c with pc := .sending, sent := c.sent + 1 } else none
  | .sending, .sent => some { c with pc := .select }
  | .sending, .sendFailed => some { c with pc := .ended }
  | .select, .datagram => some c
  | .select, .badFrame | .select, .closed | .select, .failed => some { c with pc := .ended }
  | _, _ => none

theorem step_frame (c : HubChannel) (m : Msg) : c.step (.frame m) = none := by
  cases hp : c.pc <;> simp [step, hp]

/-- Such a step is one of an attached channel, whose queue it leaves as it is. -/
theorem of_step {c c' : HubChannel} {e : ChannelEvent} (h : c.step e = some c') :
    c.attached = true ∧ e ≠ .detach ∧ c'.pc ≠ .detached ∧ c'.queued = c.queued := by
  unfold step at h
  split at h
  · split_ifs at h
    cases h; simp [attached, *]
  · cases h; simp [attached, *]
  · cases h; simp [attached, *]
  · cases h; simp [attached, *]
  · cases h; simp [attached, *]
  · cases h; simp [attached, *]
  · cases h; simp [attached, *]
  · cases h

end HubChannel

/-! ## The hub -/

structure AgentHub where
  /-- The agent channel requests go to, if any. -/
  channel : Option Nat
  /-- The relay whose inbox is registered for an id. -/
  streams : Nat → Option Nat
  nextId : Nat
  relays : List AgentRelay
  channels : List HubChannel

inductive HubEvent where
  | accept
  | relay (i : Nat) (e : RelayEvent)
  | attach
  | channel (k : Nat) (e : ChannelEvent)
  deriving DecidableEq

namespace AgentHub

def start : AgentHub := ⟨none, fun _ => none, 1, [], []⟩

/-- Put a message on the queue of the channel in the slot. -/
def sendToChannel (s : AgentHub) (m : Msg) : AgentHub :=
  match s.channel with
  | some k => { s with channels := s.channels.modify k (·.enqueue m) }
  | none => s

/-- What a relay's step does to the hub. -/
def apply (s : AgentHub) (i : Nat) : HubEffect → AgentHub
  | .nothing => s
  | .number => { s with nextId := (s.nextId + 1) % 2 ^ 64 }
  | .insert id => { s with streams := Function.update s.streams id (some i) }
  | .remove id => { s with streams := Function.update s.streams id none }
  | .send m => s.sendToChannel m

/-- A message from the client of an agent channel. -/
def onFrame (s : AgentHub) : Msg → AgentHub
  | .agentData id data =>
    match s.streams id with
    | some i => { s with relays := s.relays.modify i fun r => { r with pump := r.pump.push data } }
    | none => s
  | .agentClose id => { s with streams := Function.update s.streams id none }
  | _ => s

/-- The sender of a relay's inbox is in `streams`. -/
def registered (s : AgentHub) (i : Nat) (r : AgentRelay) : Bool :=
  r.pc.id?.any fun id => s.streams id = some i

def step (s : AgentHub) : HubEvent → Option AgentHub
  | .accept => some { s with relays := s.relays ++ [.start] }
  | .relay i e =>
    s.relays[i]?.bind fun r => (r.step s.channel s.nextId (s.registered i r) e).map fun (r', f) =>
      { s.apply i f with relays := s.relays.set i r' }
  | .attach =>
    some { s with channel := some s.channels.length, channels := s.channels ++ [.start] }
  | .channel k e =>
    s.channels[k]?.bind fun c =>
      match e with
      | .frame m => if c.pc = .select then some (s.onFrame m) else none
      | .detach =>
        -- Only if a reconnected agent channel has not replaced this one already.
        if c.pc = .ended then
          some { s with
            channel := if s.channel = some k then none else s.channel
            channels := s.channels.set k { c with pc := .detached } }
        else none
      | e => (c.step e).map fun c' => { s with channels := s.channels.set k c' }

/-- Everything that was put on a channel's queue. -/
def log (s : AgentHub) (k : Nat) : List Msg := (s.channels[k]?.map (·.queued)).getD []

/-- The runs of a hub, with clients that send anything. -/
def machine : Machine AgentHub HubEvent where
  init s := s = start
  step := step

/-! ## What a step can do -/

/-- Every step of the hub. -/
inductive Step (s : AgentHub) : HubEvent → AgentHub → Prop
  | accept : Step s .accept { s with relays := s.relays ++ [.start] }
  | relay {i : Nat} {r r' : AgentRelay} {e : RelayEvent} {f : HubEffect}
      (hr : s.relays[i]? = some r)
      (hs : AgentRelay.Step s.channel s.nextId (s.registered i r) r e r' f) :
      Step s (.relay i e) { s.apply i f with relays := s.relays.set i r' }
  | attach :
      Step s .attach
        { s with channel := some s.channels.length, channels := s.channels ++ [.start] }
  | frame {k : Nat} {c : HubChannel} {m : Msg} (hk : s.channels[k]? = some c)
      (hp : c.pc = .select) : Step s (.channel k (.frame m)) (s.onFrame m)
  | channel {k : Nat} {c c' : HubChannel} {e : ChannelEvent} (hk : s.channels[k]? = some c)
      (hs : c.step e = some c') :
      Step s (.channel k e) { s with channels := s.channels.set k c' }
  | detach {k : Nat} {c : HubChannel} (hk : s.channels[k]? = some c) (hp : c.pc = .ended) :
      Step s (.channel k .detach) { s with
        channel := if s.channel = some k then none else s.channel
        channels := s.channels.set k { c with pc := .detached } }

theorem Step.of_step {s s' : AgentHub} {e : HubEvent} (h : s.step e = some s') : Step s e s' := by
  cases e with
  | accept => cases h; exact .accept
  | attach => cases h; exact .attach
  | relay i e =>
    obtain ⟨r, hr, h⟩ := Option.bind_eq_some_iff.mp h
    obtain ⟨⟨r', f⟩, hs, rfl⟩ := Option.map_eq_some_iff.mp h
    exact .relay hr (.of_step hs)
  | channel k e =>
    obtain ⟨c, hk, h⟩ := Option.bind_eq_some_iff.mp h
    split at h
    · split_ifs at h with hp
      cases h; exact .frame hk hp
    · by_cases hp : c.pc = .ended
      · rw [if_pos hp] at h
        cases h; exact .detach hk hp
      · rw [if_neg hp] at h
        cases h
    · obtain ⟨c', hs, rfl⟩ := Option.map_eq_some_iff.mp h
      exact .channel hk hs

/-- A channel in its loop takes whatever its client sends. -/
theorem of_frame {s s' : AgentHub} {k : Nat} {m : Msg}
    (h : s.step (.channel k (.frame m)) = some s') :
    ∃ c, s.channels[k]? = some c ∧ c.pc = .select ∧ s' = s.onFrame m := by
  obtain ⟨c, hk, h⟩ := Option.bind_eq_some_iff.mp h
  refine ⟨c, hk, ?_⟩
  by_cases hp : c.pc = .select
  · simp only [hp, if_true, Option.some.injEq] at h
    exact ⟨hp, h.symm⟩
  · simp [hp] at h

/-! ## What a relay or a message changes -/

section

variable (s : AgentHub) (i : Nat) (f : HubEffect) (m : Msg)

@[simp] theorem apply_channel : (s.apply i f).channel = s.channel := by
  cases f with
  | send m => cases h : s.channel <;> simp [apply, sendToChannel, h]
  | _ => rfl

@[simp] theorem apply_channels_length : (s.apply i f).channels.length = s.channels.length := by
  cases f with
  | send m => cases h : s.channel <;> simp [apply, sendToChannel, h]
  | _ => rfl

@[simp] theorem onFrame_channel : (s.onFrame m).channel = s.channel := by
  cases m with
  | agentData id => cases h : s.streams id <;> simp [onFrame, h]
  | _ => rfl

@[simp] theorem onFrame_relays_length : (s.onFrame m).relays.length = s.relays.length := by
  cases m with
  | agentData id => cases h : s.streams id <;> simp [onFrame, h]
  | _ => rfl

@[simp] theorem onFrame_channels : (s.onFrame m).channels = s.channels := by
  cases m with
  | agentData id => cases h : s.streams id <;> simp [onFrame, h]
  | _ => rfl

end

/-! ## Who is registered -/

theorem registered_iff {s : AgentHub} {i : Nat} {r : AgentRelay} :
    s.registered i r = true ↔ ∃ id, r.pc.id? = some id ∧ s.streams id = some i := by
  simp [registered, Option.any_eq_true]

theorem of_update_none {streams : Nat → Option Nat} {id id' i : Nat}
    (h : Function.update streams id none id' = some i) : streams id' = some i := by
  by_cases hne : id' = id
  · subst hne
    rw [Function.update_self] at h
    cases h
  · rwa [Function.update_of_ne hne] at h

/-- What is registered after a step of relay `i` was registered before, unless the step did it. -/
theorem streams_of_apply {s : AgentHub} {i j id : Nat} {f : HubEffect}
    (h : (s.apply i f).streams id = some j) :
    s.streams id = some j ∨ j = i ∧ f = .insert id := by
  cases f with
  | insert id' =>
    simp only [apply] at h
    by_cases hne : id = id'
    · subst hne
      rw [Function.update_self] at h
      exact .inr ⟨(Option.some.inj h).symm, rfl⟩
    · rw [Function.update_of_ne hne] at h
      exact .inl h
  | remove id' => exact .inl (of_update_none h)
  | send m =>
    left
    cases hslot : s.channel <;> simpa [apply, sendToChannel, hslot] using h
  | nothing => exact .inl h
  | number => exact .inl h

/-- Nothing that a client sends registers a stream. -/
theorem streams_of_onFrame {s : AgentHub} {id i : Nat} {m : Msg}
    (h : (s.onFrame m).streams id = some i) : s.streams id = some i := by
  cases m with
  | agentData id' data => cases hid : s.streams id' <;> simpa [onFrame, hid] using h
  | agentClose id' => exact of_update_none h
  | _ => exact h

/-- A relay before a message from a client, which at most pushes into its inbox. -/
theorem relay_of_onFrame {s : AgentHub} {i : Nat} {r' : AgentRelay} {m : Msg}
    (h : (s.onFrame m).relays[i]? = some r') :
    ∃ r, s.relays[i]? = some r ∧
      (r' = r ∧ (∀ id data, m = .agentData id data → s.streams id ≠ some i) ∨
        ∃ id data, m = .agentData id data ∧ s.streams id = some i ∧
          r' = { r with pump := r.pump.push data }) := by
  cases m with
  | agentData id data =>
    cases hid : s.streams id with
    | none =>
      simp only [onFrame, hid] at h
      refine ⟨r', h, .inl ⟨rfl, fun id' _ heq hst => ?_⟩⟩
      cases heq
      cases hid.symm.trans hst
    | some j =>
      simp only [onFrame, hid] at h
      obtain ⟨r, hr, ⟨rfl, rfl⟩ | ⟨hne, rfl⟩⟩ := Table.of_modify h
      · exact ⟨r, hr, .inr ⟨id, data, rfl, hid, rfl⟩⟩
      · refine ⟨r', hr, .inl ⟨rfl, fun id' _ heq hst => hne ?_⟩⟩
        cases heq
        cases hid.symm.trans hst
        rfl
  | _ => exact ⟨r', h, .inl ⟨rfl, fun _ _ heq => by cases heq⟩⟩

/-! ## What is on the queues -/

section

variable {s : AgentHub} {i k : Nat} {f : HubEffect} {m : Msg}

theorem log_eq {c : HubChannel} (h : s.channels[k]? = some c) : s.log k = c.queued := by
  simp [log, h]

theorem log_send (hslot : s.channel = some k) (hk : k < s.channels.length) :
    (s.apply i (.send m)).log k = s.log k ++ [m] := by
  simp [log, apply, sendToChannel, hslot, List.getElem?_eq_getElem hk, HubChannel.enqueue]

theorem log_apply_of_ne (hslot : s.channel ≠ some k) : (s.apply i f).log k = s.log k := by
  cases f with
  | send m =>
    cases h : s.channel with
    | none => simp [apply, sendToChannel, h]
    | some j =>
      have hj : j ≠ k := fun hj => hslot (by rw [h, hj])
      simp [log, apply, sendToChannel, h, List.getElem?_modify_ne _ _ hj]
  | _ => rfl

theorem log_attach (s : AgentHub) (slot : Option Nat) (k : Nat) :
    ({ s with channel := slot, channels := s.channels ++ [.start] } : AgentHub).log k =
      s.log k := by
  rcases Nat.lt_trichotomy k s.channels.length with hk | rfl | hk
  · simp [log, List.getElem?_append_left hk]
  · simp [log, HubChannel.start]
  · have hnone : (s.channels ++ [HubChannel.start])[k]? = none := by
      apply List.getElem?_eq_none
      rw [List.length_append, List.length_singleton]
      omega
    simp [log, hnone, List.getElem?_eq_none_iff.mpr (Nat.le_of_lt hk)]

theorem log_set {c c' : HubChannel} {j : Nat} (slot : Option Nat) (hj : s.channels[j]? = some c)
    (hc : c'.queued = c.queued) (k : Nat) :
    ({ s with channel := slot, channels := s.channels.set j c' } : AgentHub).log k = s.log k := by
  by_cases hjk : j = k
  · subst hjk
    simp [log, Table.set_self hj, hj, hc]
  · simp [log, List.getElem?_set_ne hjk]

@[simp] theorem log_onFrame (m : Msg) (k : Nat) : (s.onFrame m).log k = s.log k := by
  simp [log]

end

/-- A channel before a step of a relay, which leaves its handler where it is. -/
theorem channel_of_apply {s : AgentHub} {i k : Nat} {f : HubEffect} {c' : HubChannel}
    (h : (s.apply i f).channels[k]? = some c') :
    ∃ c, s.channels[k]? = some c ∧ c'.pc = c.pc := by
  cases f with
  | send m =>
    simp only [apply, sendToChannel] at h
    cases hslot : s.channel with
    | none =>
      rw [hslot] at h
      exact ⟨c', h, rfl⟩
    | some j =>
      rw [hslot] at h
      obtain ⟨c, hc, ⟨rfl, rfl⟩ | ⟨-, rfl⟩⟩ := Table.of_modify h
      · exact ⟨c, hc, rfl⟩
      · exact ⟨c', hc, rfl⟩
  | _ => exact ⟨c', h, rfl⟩

theorem relays_length_le {s s' : AgentHub} {e : HubEvent} (hs : Step s e s') :
    s.relays.length ≤ s'.relays.length := by
  cases hs with
  | frame => rw [onFrame_relays_length]
  | _ => simp

end AgentHub

end HerdrEternal
