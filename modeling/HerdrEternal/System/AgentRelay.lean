import HerdrEternal.System.AgentIds

/-!
# Agent forwarding from end to end

A program's request goes through the relay at the hub, the queue of a channel, the connection, the
client and its connection to the local agent, and the answer comes back the same way. `AgentSys` is
a hub together with the client at the other end of each of its channels, joined by connections that
deliver in order.

**Theorem (`agent_bytes_in_order`).** With fewer than 2⁶⁴ connections, in every state of every run:
an id belongs to one program and to at most one connection to a local agent; what is written to that
agent is a prefix of what was read from that program, and the other way round.

The proof joins the invariant of the hub (`HubOk`), the invariant of each client after what it has
received (`ClientOk`), and one more for the way back, about what the hub has heard from the client
of the channel that a stream was opened on (`InboxOk`).
-/

namespace HerdrEternal

/-- The client of an agent channel, and how far the messages on the connection have come. -/
structure AgentEnd where
  client : AgentClient
  /-- How many of the hub's messages the client has received. -/
  got : Nat
  /-- How many of the client's messages the hub has received. -/
  heard : Nat

structure AgentSys where
  hub : AgentHub
  /-- The other end of each channel. -/
  ends : List AgentEnd

inductive AgentLabel where
  /-- A step of the hub other than the next two. -/
  | hub (e : HubEvent)
  | attach
  /-- Channel `k` receives the next message of its client. -/
  | hear (k : Nat)
  /-- A step of the client of channel `k` other than the next. -/
  | client (k : Nat) (e : AgentClientEvent)
  /-- The client of channel `k` receives the next message. -/
  | get (k : Nat)
  deriving DecidableEq

namespace AgentSys

def start : AgentSys := ⟨.start, []⟩

def step (s : AgentSys) : AgentLabel → Option AgentSys
  | .hub e =>
    match e with
    | .attach | .channel _ (.frame _) => none
    | e => (s.hub.step e).map fun hub => { s with hub := hub }
  | .attach => (s.hub.step .attach).map fun hub => ⟨hub, s.ends ++ [⟨.start, 0, 0⟩]⟩
  | .hear k =>
    s.ends[k]?.bind fun e =>
      if e.heard < e.client.sent then
        e.client.queued[e.heard]?.bind fun m =>
          (s.hub.step (.channel k (.frame m))).map fun hub =>
            ⟨hub, s.ends.set k { e with heard := e.heard + 1 }⟩
      else none
  | .client k e =>
    match e with
    | .frame _ => none
    | e => s.ends[k]?.bind fun d => (d.client.step e).map fun client =>
      { s with ends := s.ends.set k { d with client := client } }
  | .get k =>
    s.ends[k]?.bind fun e => s.hub.channels[k]?.bind fun c =>
      if e.got < c.sent then
        c.queued[e.got]?.bind fun m => (e.client.step (.frame m)).map fun client =>
          { s with ends := s.ends.set k ⟨client, e.got + 1, e.heard⟩ }
      else none

def machine : Machine AgentSys AgentLabel where
  init s := s = start
  step := step

/-- Every step of the system. -/
inductive Step (s : AgentSys) : AgentLabel → AgentSys → Prop
  | hub {e : HubEvent} {hub : AgentHub} (hs : s.hub.step e = some hub) (ha : e ≠ .attach)
      (hf : ∀ k m, e ≠ .channel k (.frame m)) : Step s (.hub e) { s with hub := hub }
  | attach {hub : AgentHub} (hs : s.hub.step .attach = some hub) :
      Step s .attach ⟨hub, s.ends ++ [⟨.start, 0, 0⟩]⟩
  | hear {k : Nat} {e : AgentEnd} {m : Msg} {hub : AgentHub} (hk : s.ends[k]? = some e)
      (hm : e.client.queued[e.heard]? = some m)
      (hs : s.hub.step (.channel k (.frame m)) = some hub) :
      Step s (.hear k) ⟨hub, s.ends.set k { e with heard := e.heard + 1 }⟩
  | client {k : Nat} {d : AgentEnd} {e : AgentClientEvent} {client : AgentClient}
      (hk : s.ends[k]? = some d) (hs : AgentClient.Step d.client e client)
      (hf : ∀ m, e ≠ .frame m) :
      Step s (.client k e) { s with ends := s.ends.set k { d with client := client } }
  | get {k : Nat} {e : AgentEnd} {c : HubChannel} {m : Msg} {client : AgentClient}
      (hk : s.ends[k]? = some e) (hc : s.hub.channels[k]? = some c)
      (hm : c.queued[e.got]? = some m) (hs : AgentClient.Step e.client (.frame m) client) :
      Step s (.get k) { s with ends := s.ends.set k ⟨client, e.got + 1, e.heard⟩ }

theorem Step.of_step {s s' : AgentSys} {l : AgentLabel} (h : s.step l = some s') :
    Step s l s' := by
  cases l with
  | hub e =>
    simp only [step] at h
    split at h
    · cases h
    · cases h
    · rename_i ha hf
      obtain ⟨hub, hs, rfl⟩ := Option.map_eq_some_iff.mp h
      exact .hub hs ha hf
  | attach =>
    cases h
    exact .attach rfl
  | hear k =>
    obtain ⟨e, hk, h⟩ := Option.bind_eq_some_iff.mp h
    split_ifs at h with hlt
    obtain ⟨m, hm, h⟩ := Option.bind_eq_some_iff.mp h
    obtain ⟨hub, hs, rfl⟩ := Option.map_eq_some_iff.mp h
    exact .hear hk hm hs
  | client k e =>
    simp only [step] at h
    split at h
    · cases h
    · rename_i hf
      obtain ⟨d, hk, h⟩ := Option.bind_eq_some_iff.mp h
      obtain ⟨client, hs, rfl⟩ := Option.map_eq_some_iff.mp h
      exact .client hk (.of_step hs) hf
  | get k =>
    obtain ⟨e, hk, h⟩ := Option.bind_eq_some_iff.mp h
    obtain ⟨c, hc, h⟩ := Option.bind_eq_some_iff.mp h
    split_ifs at h with hlt
    obtain ⟨m, hm, h⟩ := Option.bind_eq_some_iff.mp h
    obtain ⟨client, hs, rfl⟩ := Option.map_eq_some_iff.mp h
    exact .get hk hc hm (.of_step hs)

/-! ## The way back -/

/-- What the hub has received from the client of a channel. -/
def heardLog (s : AgentSys) (k : Nat) : List Msg :=
  (s.ends[k]?.map fun e => e.client.queued.take e.heard).getD []

/-- A relay writes what was heard for it on its channel. -/
structure InboxOk (heard : Nat → List Msg) (streams : Nat → Option Nat) (i : Nat)
    (r : AgentRelay) : Prop where
  fresh : r.channel = none → r.pump.received = []
  behind : ∀ id k, r.pc.id? = some id → r.channel = some k →
    r.pump.Behind (dataOf id (heard k))
  full : ∀ id k, r.pc.id? = some id → r.channel = some k → streams id = some i →
    r.pump.running = true → r.pump.received = dataOf id (heard k)

section InboxOk

variable {heard : Nat → List Msg} {streams streams' : Nat → Option Nat} {i : Nat}
  {r r' : AgentRelay}

theorem inboxOk_start : InboxOk heard streams i .start where
  fresh := fun _ => rfl
  behind := fun id k hid => by cases hid
  full := fun id k hid => by cases hid

theorem InboxOk.of_streams (h : InboxOk heard streams i r)
    (hst : ∀ id, streams' id = some i → streams id = some i) : InboxOk heard streams' i r :=
  { h with full := fun id k hid hk hreg => h.full id k hid hk (hst id hreg) }

/-- A relay that keeps its pump, its id and its channel. -/
theorem InboxOk.goTo (h : InboxOk heard streams i r) {pc : RelayPc} (hid : pc.id? = r.pc.id?) :
    InboxOk heard streams i { r with pc := pc } where
  fresh := h.fresh
  behind := fun id k hid' => h.behind id k (hid ▸ hid')
  full := fun id k hid' => h.full id k (hid ▸ hid')

/-- A relay without a channel has nothing to write. -/
theorem InboxOk.of_fresh (hnone : r.channel = none) (hr : r.pump.received = []) :
    InboxOk heard streams i r where
  fresh := fun _ => hr
  behind := fun id k _ hk => by cases hnone.symm.trans hk
  full := fun id k _ hk => by cases hnone.symm.trans hk

/-- A relay that moves its pump, and neither loses nor invents what it still has to write. -/
theorem InboxOk.pump (h : InboxOk heard streams i r) {pump : Pump UInt8}
    (hopen : ∃ k, r.channel = some k)
    (hbehind : ∀ src, r.pump.Behind src → pump.Behind src)
    (hrec : pump.running = true → r.pump.running = true ∧ pump.received = r.pump.received) :
    InboxOk heard streams i { r with pump := pump } where
  fresh := by
    intro hnone
    obtain ⟨k, hk⟩ := hopen
    cases hk.symm.trans hnone
  behind := fun id k hid hk => hbehind _ (h.behind id k hid hk)
  full := by
    intro id k hid hk hreg hrun
    obtain ⟨hrun, heq⟩ := hrec hrun
    exact heq.trans (h.full id k hid hk hreg hrun)

/-- Nothing is heard of a stream before it is opened. -/
theorem InboxOk.relay {s : AgentHub} {n : Nat} {log : Nat → List Msg} {ev : RelayEvent}
    {f : HubEffect} (h : InboxOk heard s.streams i r) (hok : AgentHub.RelayOk s.channel n log r)
    (hsilent : ∀ id k, r.pc.id? = some id → r.channel = none → dataOf id (heard k) = [])
    (hs : AgentRelay.Step s.channel s.nextId (s.registered i r) r ev r' f) :
    InboxOk heard (s.apply i f).streams i r' := by
  cases hs with
  | attached hp => exact h.goTo (by rw [hp]; rfl)
  | timedOut hp => exact h.goTo (by rw [hp]; rfl)
  | notOpened hp => exact h.goTo (by rw [hp]; rfl)
  | number hp =>
    have hnone := hok.unopened (by simp [AgentRelay.unannounced, hp])
    exact .of_fresh hnone (h.fresh hnone)
  | register hp =>
    have hnone := hok.unopened (by simp [AgentRelay.unannounced, hp])
    exact .of_fresh hnone (h.fresh hnone)
  | unregister hp =>
    exact (h.goTo (by rw [hp]; rfl)).of_streams fun _ hreg => AgentHub.of_update_none hreg
  | remove hp =>
    exact (h.goTo (by rw [hp]; rfl)).of_streams fun _ hreg => AgentHub.of_update_none hreg
  | sendClose hp =>
    rw [AgentHub.apply_send_streams]
    exact h.goTo (by rw [hp]; rfl)
  | @sendOpen id k hp =>
    have hnone := hok.unopened (by simp [AgentRelay.unannounced, hp])
    have hrec := h.fresh hnone
    have hnil : dataOf id (heard k) = [] := hsilent id k (by rw [hp]; rfl) hnone
    refine ⟨fun hn => (by cases hn), fun id' k' hid hk => ?_, fun id' k' hid hk _ _ => ?_⟩
    · cases hid
      cases hk
      rw [hnil, ← hrec]
      exact ⟨r.pump.written_le_received, fun _ => List.prefix_refl _⟩
    · cases hid
      cases hk
      rw [hnil]
      exact hrec
  | io hp hio =>
    exact h.pump (hok.opened (by simp [AgentRelay.isOpen, hp])) (fun _ hb => hb.io hio)
      fun hrun => ⟨hio.running, hio.received hrun⟩
  | sendData hp hh =>
    rw [AgentHub.apply_send_streams]
    exact h.pump (hok.opened (by simp [AgentRelay.isOpen, hp])) (fun _ hb => hb.handed hh _)
      fun _ => ⟨Pump.running_of_handing hh, Pump.handed_received hh _⟩
  | inboxClosed hp =>
    exact h.pump (hok.opened (by simp [AgentRelay.isOpen, hp])) (fun _ hb => hb.stop _)
      fun hrun => by cases hrun

/-- A chunk for the stream is heard on its channel. -/
theorem InboxOk.push {k id : Nat} {data : Data} (h : InboxOk heard streams i r)
    (hid : r.pc.id? = some id) (hk : r.channel = some k) (hreg : streams id = some i) :
    InboxOk (AgentHub.extend heard k (.agentData id data)) streams i
      { r with pump := r.pump.push data } := by
  have hnew : dataOf id (AgentHub.extend heard k (.agentData id data) k) =
      dataOf id (heard k) ++ data := by
    rw [AgentHub.extend_self, dataOf_append, dataOf_data_self]
  refine ⟨fun hnone => ?_, fun id' k' hid' hk' => ?_, fun id' k' hid' hk' _ hrun => ?_⟩
  · cases hk.symm.trans hnone
  · cases hid.symm.trans hid'
    cases hk.symm.trans hk'
    rw [hnew]
    exact (h.behind id k hid hk).push (h.full id k hid hk hreg)
  · cases hid.symm.trans hid'
    cases hk.symm.trans hk'
    rw [hnew, Pump.push_received, h.full id k hid hk hreg hrun]

/-- Something else is heard, or nobody is registered for it. -/
theorem InboxOk.hear {k : Nat} {m : Msg} (h : InboxOk heard streams i r)
    (hm : ∀ id data, m = .agentData id data → r.pc.id? = some id → streams id ≠ some i) :
    InboxOk (AgentHub.extend heard k m) streams i r where
  fresh := h.fresh
  behind := by
    intro id j hid hj
    refine (h.behind id j hid hj).mono (dataOf_mono ?_)
    by_cases hjk : j = k
    · subst hjk
      rw [AgentHub.extend_self]
      exact List.prefix_append _ _
    · rw [AgentHub.extend_of_ne hjk]
  full := by
    intro id j hid hj hreg hrun
    rw [h.full id j hid hj hreg hrun]
    by_cases hjk : j = k
    · subst hjk
      rw [AgentHub.extend_self, dataOf_append, dataOf_singleton, List.append_nil]
      intro data heq
      exact hm id data heq hid hreg
    · rw [AgentHub.extend_of_ne hjk]

end InboxOk

/-! ## The whole way -/

variable {s s' : AgentSys} {l : AgentLabel} {k : Nat}

theorem heardLog_of_hear {e : AgentEnd} {m : Msg} {hub : AgentHub} (hk : s.ends[k]? = some e)
    (hm : e.client.queued[e.heard]? = some m) :
    heardLog ⟨hub, s.ends.set k { e with heard := e.heard + 1 }⟩ =
      AgentHub.extend s.heardLog k m := by
  funext j
  by_cases hj : j = k
  · subst hj
    simp [heardLog, Table.set_self hk, hk, List.take_add_one, hm]
  · rw [AgentHub.extend_of_ne hj]
    simp [heardLog, List.getElem?_set_ne (Ne.symm hj)]

theorem heardLog_of_client {d e : AgentEnd} (hk : s.ends[k]? = some d)
    (hqueued : d.client.queued <+: e.client.queued) (hheard : e.heard = d.heard)
    (hle : d.heard ≤ d.client.queued.length) :
    heardLog { s with ends := s.ends.set k e } = s.heardLog := by
  funext j
  by_cases hj : j = k
  · subst hj
    obtain ⟨rest, hrest⟩ := hqueued
    simp [heardLog, Table.set_self hk, hk, ← hrest, hheard, List.take_append_of_le_length hle]
  · simp [heardLog, List.getElem?_set_ne (Ne.symm hj)]

theorem heardLog_of_attach (hub : AgentHub) :
    heardLog ⟨hub, s.ends ++ [⟨.start, 0, 0⟩]⟩ = s.heardLog := by
  funext j
  rcases Nat.lt_trichotomy j s.ends.length with hj | rfl | hj
  · simp [heardLog, List.getElem?_append_left hj]
  · simp [heardLog]
  · have hnone : (s.ends ++ [⟨AgentClient.start, 0, 0⟩])[j]? = none := by
      apply List.getElem?_eq_none
      rw [List.length_append, List.length_singleton]
      omega
    simp [heardLog, hnone, List.getElem?_eq_none_iff.mpr (Nat.le_of_lt hj)]

/-- The client's end of channel `k`. -/
structure EndOk (log : List Msg) (e : AgentEnd) : Prop where
  client : AgentClient.ClientOk (log.take e.got) e.client
  got : e.got ≤ log.length
  heard : e.heard ≤ e.client.queued.length

theorem EndOk.mono {log log' : List Msg} {e : AgentEnd} (h : EndOk log e) (hle : log <+: log') :
    EndOk log' e := by
  obtain ⟨rest, rfl⟩ := hle
  refine ⟨?_, ?_, h.heard⟩
  · rw [List.take_append_of_le_length h.got]
    exact h.client
  · rw [List.length_append]
    exact Nat.le_trans h.got (Nat.le_add_right _ _)

structure AgentOk (s : AgentSys) : Prop where
  hub : AgentHub.HubOk s.hub
  end_ : ∀ (k : Nat) (e : AgentEnd), s.ends[k]? = some e → EndOk (s.hub.log k) e
  inbox : ∀ (i : Nat) (r : AgentRelay), s.hub.relays[i]? = some r →
    InboxOk s.heardLog s.hub.streams i r

/-- A stream that a client has opened was announced on its channel. -/
theorem AgentOk.opened (h : AgentOk s) {e : AgentEnd} (hk : s.ends[k]? = some e) {id : Nat}
    (hid : id ∈ e.client.relays.map (·.id)) : (some id, some k) ∈ s.hub.owners :=
  h.hub.named.opens id k (List.mem_of_mem_take ((h.end_ k e hk).client.opened hid))

/-- The hub hears data of a stream only from the client it was announced to. -/
theorem AgentOk.heard (h : AgentOk s) {id : Nat} {data : Data} {e : AgentEnd}
    (hk : s.ends[k]? = some e) (hmem : .agentData id data ∈ e.client.queued) :
    (some id, some k) ∈ s.hub.owners :=
  h.opened hk ((h.end_ k e hk).client.silent id data hmem)

theorem AgentOk.silent (h : AgentOk s) {i id : Nat} {r : AgentRelay}
    (hr : s.hub.relays[i]? = some r) (hid : r.pc.id? = some id) (hnone : r.channel = none) :
    dataOf id (s.heardLog k) = [] := by
  refine dataOf_eq_nil fun data hmem => ?_
  cases hk : s.ends[k]? with
  | none => simp [heardLog, hk] at hmem
  | some e =>
    simp only [heardLog, hk, Option.map_some, Option.getD_some] at hmem
    have howner := h.heard hk (List.mem_of_mem_take hmem)
    have hi := AgentHub.owners_getElem? hr
    rw [hid, hnone] at hi
    cases h.hub.named.owner_unique hi howner

theorem AgentOk.hubStep (h : AgentOk s) {e : HubEvent} {hub : AgentHub}
    (hlt : hub.relays.length < 2 ^ 64) (hs : AgentHub.Step s.hub e hub) (ha : e ≠ .attach)
    (hf : ∀ k m, e ≠ .channel k (.frame m)) : AgentOk { s with hub := hub } := by
  refine ⟨h.hub.step hlt hs, fun k d hk => ?_, ?_⟩
  · exact (h.end_ k d hk).mono (AgentHub.log_le h.hub.newest hs k)
  · cases hs with
    | accept =>
      intro i r hr
      rcases Table.of_concat hr with hr | ⟨-, rfl⟩
      · exact h.inbox i r hr
      · exact inboxOk_start
    | @relay i r r' _ f hr hs =>
      intro j q hq
      rcases Table.of_set hq with ⟨rfl, rfl⟩ | ⟨hne, hq⟩
      · exact (h.inbox j r hr).relay (h.hub.relay j r hr)
          (fun id k hid hnone => h.silent hr hid hnone) hs
      · refine (h.inbox j q hq).of_streams fun id hreg => ?_
        exact (AgentHub.streams_of_apply hreg).resolve_right fun hj => hne hj.1
    | attach => exact absurd rfl ha
    | frame => exact absurd rfl (hf _ _)
    | channel => exact h.inbox
    | detach => exact h.inbox

theorem AgentOk.hear (h : AgentOk s) {e : AgentEnd} {m : Msg} {hub : AgentHub}
    (hlt : hub.relays.length < 2 ^ 64) (hk : s.ends[k]? = some e)
    (hm : e.client.queued[e.heard]? = some m)
    (hs : s.hub.step (.channel k (.frame m)) = some hub) :
    AgentOk ⟨hub, s.ends.set k { e with heard := e.heard + 1 }⟩ := by
  obtain ⟨c, hc, hp, rfl⟩ := AgentHub.of_frame hs
  refine ⟨h.hub.step hlt (.frame hc hp), fun j d hj => ?_, fun i r' hr' => ?_⟩
  · simp only [AgentHub.log_onFrame]
    rcases Table.of_set hj with ⟨rfl, rfl⟩ | ⟨-, hj⟩
    · obtain ⟨hclient, hgot, -⟩ := h.end_ j e hk
      exact ⟨hclient, hgot, Table.lt_of_getElem? hm⟩
    · exact h.end_ j d hj
  · rw [heardLog_of_hear hk hm]
    obtain ⟨r, hr, ⟨rfl, hquiet⟩ | ⟨id, data, rfl, hst, rfl⟩⟩ := AgentHub.relay_of_onFrame hr'
    · exact ((h.inbox i r' hr).hear fun id data heq _ => hquiet id data heq).of_streams
        fun _ hreg => AgentHub.streams_of_onFrame hreg
    · -- The stream was announced on this channel, and its inbox is the one that is registered.
      obtain ⟨ch, hi⟩ := h.hub.named.refers id i hst
      have hown := h.heard hk (List.mem_of_getElem? hm)
      cases h.hub.named.owner_unique hi hown
      have hi' := AgentHub.owners_getElem? hr
      rw [hi] at hi'
      simp only [Option.some.injEq, Prod.mk.injEq] at hi'
      exact ((h.inbox i r hr).push hi'.1.symm hi'.2.symm hst).of_streams
        fun _ hreg => AgentHub.streams_of_onFrame hreg

theorem AgentOk.step (h : AgentOk s) (hlt : s'.hub.relays.length < 2 ^ 64) (hs : Step s l s') :
    AgentOk s' := by
  cases hs with
  | hub hs ha hf => exact h.hubStep hlt (.of_step hs) ha hf
  | hear hk hm hs => exact h.hear hlt hk hm hs
  | attach hs =>
    have hs := AgentHub.Step.of_step hs
    refine ⟨h.hub.step hlt hs, fun k e hk => ?_, ?_⟩
    · rcases Table.of_concat hk with hk | ⟨-, rfl⟩
      · exact (h.end_ k e hk).mono (AgentHub.log_le h.hub.newest hs k)
      · exact ⟨AgentClient.clientOk_start, Nat.zero_le _, Nat.zero_le _⟩
    · rw [heardLog_of_attach]
      cases hs
      exact h.inbox
  | @client k d e client hk hs hf =>
    obtain ⟨hclient, hgot, hheard⟩ := h.end_ k d hk
    have hqueued := AgentClient.queued_le hs
    refine ⟨h.hub, fun j e' hj => ?_, ?_⟩
    · rcases Table.of_set hj with ⟨rfl, rfl⟩ | ⟨-, hj⟩
      · exact ⟨hclient.step hs hf, hgot, Nat.le_trans hheard hqueued.length_le⟩
      · exact h.end_ j e' hj
    · rw [heardLog_of_client (e := { d with client := client }) hk hqueued rfl hheard]
      exact h.inbox
  | @get k e c m client hk hc hm hs =>
    obtain ⟨hclient, hgot, hheard⟩ := h.end_ k e hk
    have hqueued := AgentClient.queued_le hs
    have hlog := AgentHub.log_eq hc
    rw [← hlog] at hm
    refine ⟨h.hub, fun j e' hj => ?_, ?_⟩
    · rcases Table.of_set hj with ⟨rfl, rfl⟩ | ⟨-, hj⟩
      · refine ⟨?_, Table.lt_of_getElem? hm, Nat.le_trans hheard hqueued.length_le⟩
        simp only [List.take_add_one, hm, Option.toList_some]
        cases hs
        refine hclient.frame fun id heq => ?_
        subst heq
        exact h.hub.named.first j e.got id hm
      · exact h.end_ j e' hj
    · rw [heardLog_of_client (e := ⟨client, e.got + 1, e.heard⟩) hk hqueued rfl hheard]
      exact h.inbox

theorem relays_length_le (hs : Step s l s') : s.hub.relays.length ≤ s'.hub.relays.length := by
  cases hs with
  | hub hs => exact AgentHub.relays_length_le (.of_step hs)
  | attach hs => exact AgentHub.relays_length_le (.of_step hs)
  | hear _ _ hs => exact AgentHub.relays_length_le (.of_step hs)
  | client => exact Nat.le_refl _
  | get => exact Nat.le_refl _

theorem agentOk_reachable (h : machine.Reachable s) (hlt : s.hub.relays.length < 2 ^ 64) :
    AgentOk s := by
  refine h.invariant (P := fun s => s.hub.relays.length < 2 ^ 64 → AgentOk s) ?_ ?_ hlt
  · rintro s rfl -
    exact ⟨AgentHub.hubOk_start, fun k e hk => (by cases hk), fun i r hr => (by cases hr)⟩
  · intro s l s' hok _ hs hlt
    have hs := Step.of_step hs
    exact (hok (Nat.lt_of_le_of_lt (relays_length_le hs) hlt)).step hlt hs

/-- What is forwarded is what was read. -/
structure AgentBytes (s : AgentSys) : Prop where
  /-- An id belongs to one program's connection. -/
  ids : ∀ (i j : Nat) (r q : AgentRelay) (id : Nat), s.hub.relays[i]? = some r →
    s.hub.relays[j]? = some q → r.pc.id? = some id → q.pc.id? = some id → i = j
  /-- And to at most one connection to a local agent. -/
  agents : ∀ (k k' j j' : Nat) (e e' : AgentEnd) (l l' : LocalRelay), s.ends[k]? = some e →
    e.client.relays[j]? = some l → s.ends[k']? = some e' → e'.client.relays[j']? = some l' →
    l.id = l'.id → k = k' ∧ j = j'
  /-- What a local agent is sent was read from the program with that id. -/
  toAgent : ∀ (k j : Nat) (e : AgentEnd) (l : LocalRelay), s.ends[k]? = some e →
    e.client.relays[j]? = some l → ∃ (i : Nat) (r : AgentRelay), s.hub.relays[i]? = some r ∧
      r.pc.id? = some l.id ∧ l.pump.written <+: r.pump.read
  /-- What a program is sent was read from the local agent with that id. -/
  toProgram : ∀ (i : Nat) (r : AgentRelay) (id : Nat), s.hub.relays[i]? = some r →
    r.pc.id? = some id → r.pump.written ≠ [] →
    ∃ (k j : Nat) (e : AgentEnd) (l : LocalRelay), s.ends[k]? = some e ∧
      e.client.relays[j]? = some l ∧ l.id = id ∧ r.pump.written <+: l.pump.read

theorem AgentOk.ids (h : AgentOk s) {i j id : Nat} {r q : AgentRelay}
    (hr : s.hub.relays[i]? = some r) (hq : s.hub.relays[j]? = some q) (hid : r.pc.id? = some id)
    (hid' : q.pc.id? = some id) : i = j := by
  have hi := AgentHub.owners_getElem? hr
  have hj := AgentHub.owners_getElem? hq
  rw [hid] at hi
  rw [hid'] at hj
  exact h.hub.named.unique i j id r.channel q.channel hi hj

theorem AgentOk.agents (h : AgentOk s) {k' j j' : Nat} {e e' : AgentEnd} {l l' : LocalRelay}
    (hk : s.ends[k]? = some e) (hl : e.client.relays[j]? = some l) (hk' : s.ends[k']? = some e')
    (hl' : e'.client.relays[j']? = some l') (hid : l.id = l'.id) : k = k' ∧ j = j' := by
  have hj : (e.client.relays.map (·.id))[j]? = some l.id := by rw [List.getElem?_map, hl]; rfl
  have hj' : (e'.client.relays.map (·.id))[j']? = some l.id := by
    rw [List.getElem?_map, hl', hid]
    rfl
  have hown := h.opened hk (List.mem_of_getElem? hj)
  have hown' := h.opened hk' (List.mem_of_getElem? hj')
  obtain ⟨i, hi⟩ := List.mem_iff_getElem?.mp hown
  cases h.hub.named.owner_unique hi hown'
  cases hk.symm.trans hk'
  exact ⟨rfl, (List.getElem?_inj (Table.lt_of_getElem? hj)
    (h.end_ k e hk).client.unique).mp (hj.trans hj'.symm)⟩

theorem AgentOk.toAgent (h : AgentOk s) {j : Nat} {e : AgentEnd} {l : LocalRelay}
    (hk : s.ends[k]? = some e) (hl : e.client.relays[j]? = some l) :
    ∃ (i : Nat) (r : AgentRelay), s.hub.relays[i]? = some r ∧ r.pc.id? = some l.id ∧
      l.pump.written <+: r.pump.read := by
  have hid : l.id ∈ e.client.relays.map (·.id) := List.mem_map_of_mem (List.mem_of_getElem? hl)
  obtain ⟨i, hi⟩ := List.mem_iff_getElem?.mp (h.opened hk hid)
  rw [AgentHub.owners, List.getElem?_map] at hi
  obtain ⟨r, hr, heq⟩ := Option.map_eq_some_iff.mp hi
  simp only [Prod.mk.injEq] at heq
  refine ⟨i, r, hr, heq.1, ?_⟩
  calc l.pump.written
      <+: dataOf l.id ((s.hub.log k).take e.got) := ((h.end_ k e hk).client.relay j l hl).behind.written
    _ <+: dataOf l.id (s.hub.log k) := dataOf_mono (List.take_prefix _ _)
    _ <+: r.pump.read := (h.hub.relay i r hr).said l.id k heq.1 heq.2

theorem AgentOk.toProgram (h : AgentOk s) {i id : Nat} {r : AgentRelay}
    (hr : s.hub.relays[i]? = some r) (hid : r.pc.id? = some id) (hne : r.pump.written ≠ []) :
    ∃ (k j : Nat) (e : AgentEnd) (l : LocalRelay), s.ends[k]? = some e ∧
      e.client.relays[j]? = some l ∧ l.id = id ∧ r.pump.written <+: l.pump.read := by
  have hin := h.inbox i r hr
  cases hch : r.channel with
  | none =>
    have hle := r.pump.written_le_received
    rw [hin.fresh hch] at hle
    exact absurd (List.prefix_nil.mp hle) hne
  | some k =>
    have hle := (hin.behind id k hid hch).written
    cases hk : s.ends[k]? with
    | none =>
      simp only [heardLog, hk, Option.map_none, Option.getD_none, dataOf_nil] at hle
      exact absurd (List.prefix_nil.mp hle) hne
    | some e =>
      simp only [heardLog, hk, Option.map_some, Option.getD_some] at hle
      have hle := hle.trans (dataOf_mono (List.take_prefix _ _))
      by_cases hmem : id ∈ e.client.relays.map (·.id)
      · obtain ⟨l, hl, rfl⟩ := List.mem_map.mp hmem
        obtain ⟨j, hj⟩ := List.mem_iff_getElem?.mp hl
        exact ⟨k, j, e, l, hk, hj, rfl, hle.trans ((h.end_ k e hk).client.relay j l hj).sent⟩
      · rw [dataOf_eq_nil fun data hd => hmem ((h.end_ k e hk).client.silent id data hd)] at hle
        exact absurd (List.prefix_nil.mp hle) hne

/-- **Agent bytes are forwarded in order**, to nobody else, and at most once. -/
theorem agent_bytes_in_order (h : machine.Reachable s) (hlt : s.hub.relays.length < 2 ^ 64) :
    AgentBytes s := by
  have hok := agentOk_reachable h hlt
  exact {
    ids := fun i j r q id hr hq hid hid' => hok.ids hr hq hid hid'
    agents := fun k k' j j' e e' l l' hk hl hk' hl' hid => hok.agents hk hl hk' hl' hid
    toAgent := fun k j e l hk hl => hok.toAgent hk hl
    toProgram := fun i r id hr hid hne => hok.toProgram hr hid hne }

/-- Two clients attach; a program connects, and its stream goes to the second one. -/
def connectRun : List AgentLabel :=
  [.attach, .attach] ++
    [HubEvent.accept, .relay 0 .attached, .relay 0 .number, .relay 0 .register,
      .relay 0 .sendOpen, .relay 0 (.io (.read [11])), .relay 0 .sendData].map .hub

/-- The next message of channel `k` goes to its client. -/
def down (k : Nat) : List AgentLabel :=
  [.hub (.channel k .recv), .hub (.channel k .sent), .get k]

/-- And one of its client's messages back. -/
def up (k : Nat) : List AgentLabel := [.client k .send, .client k .sent, .hear k]

/-- The request is written to the local agent, and its answer to the program. -/
def answerRun : List AgentLabel :=
  connectRun ++ down 1 ++ down 1 ++
    [.client 1 (.relay 0 (.connected true)), .client 1 (.relay 0 (.io .take)),
      .client 1 (.relay 0 (.io (.wrote 1))), .client 1 (.relay 0 (.io (.read [14, 15]))),
      .client 1 (.relay 0 .sendData)] ++
    up 1 ++ [.hub (.relay 0 (.io .take)), .hub (.relay 0 (.io (.wrote 1)))]

def answered : AgentSys := (machine.run start answerRun).get (by decide)

theorem answered_in_order :
    machine.Reachable answered ∧
    answered.hub.relays.map (fun r => (r.pump.read, r.pump.written)) = [([11], [14])] ∧
    answered.ends.map (fun e => e.client.relays.map fun l => (l.pump.read, l.pump.written)) =
      [[], [([14, 15], [11])]] ∧
    AgentBytes answered := by
  have hreach : machine.Reachable answered :=
    Machine.reachable_of_run rfl (Option.some_get _).symm
  exact ⟨hreach, by decide, by decide, agent_bytes_in_order hreach (by decide)⟩

end AgentSys

end HerdrEternal
