import HerdrEternal.Lib.Pump
import HerdrEternal.Lib.Table
import HerdrEternal.Server.OutboundLog

/-!
# The client's agent channel

`relay_agent_channel` of `client/src/agent.rs` serves one agent channel: every `AgentOpen` becomes
a connection to the local agent, served by a `relay_agent_stream`, and `AgentData` flows both ways
until either side closes.

The invariant `ClientOk` follows the bytes of every stream through the client, from the messages
received to the local agent and from the local agent to the messages queued.
-/

namespace HerdrEternal

/-! ## Bytes of a stream -/

/-- The bytes that messages carry for an agent stream. -/
def dataOf (id : Nat) (log : List Msg) : Data :=
  log.flatMap fun m =>
    match m with
    | .agentData id' data => if id' = id then data else []
    | _ => []

@[simp] theorem dataOf_nil (id : Nat) : dataOf id [] = [] := rfl

@[simp] theorem dataOf_append (id : Nat) (log log' : List Msg) :
    dataOf id (log ++ log') = dataOf id log ++ dataOf id log' := List.flatMap_append

@[simp] theorem dataOf_data_self (id : Nat) (data : Data) :
    dataOf id [.agentData id data] = data := by
  simp [dataOf]

/-- Only `AgentData` of the stream itself carries bytes of it. -/
theorem dataOf_singleton {id : Nat} {m : Msg} (h : ∀ data, m ≠ .agentData id data) :
    dataOf id [m] = [] := by
  cases m with
  | agentData id' data =>
    have hne : id' ≠ id := by
      rintro rfl
      exact h data rfl
    simp [dataOf, hne]
  | _ => simp [dataOf]

theorem dataOf_mono {id : Nat} {log log' : List Msg} (h : log <+: log') :
    dataOf id log <+: dataOf id log' := by
  obtain ⟨rest, rfl⟩ := h
  rw [dataOf_append]
  exact List.prefix_append _ _

theorem dataOf_eq_nil {id : Nat} {log : List Msg} (h : ∀ data, .agentData id data ∉ log) :
    dataOf id log = [] := by
  induction log with
  | nil => rfl
  | cons m log ih =>
    have hm : ∀ data, m ≠ .agentData id data := by
      rintro data rfl
      exact h data List.mem_cons_self
    rw [← List.singleton_append, dataOf_append, dataOf_singleton hm, List.nil_append]
    exact ih fun data hmem => h data (List.mem_cons_of_mem _ hmem)

/-! ## Connections to the local agent -/

inductive LocalPc where
  | connecting
  /-- In the loop, or just out of it. -/
  | relaying
  | closing
  | ended
  deriving DecidableEq

/-- One connection to the local agent. -/
structure LocalRelay where
  id : Nat
  pc : LocalPc
  pump : Pump UInt8
  deriving DecidableEq

inductive LocalEvent where
  | connected (ok : Bool)
  | io (e : PumpIo UInt8)
  | sendData
  | inboxClosed
  | leave
  | sendClose
  deriving DecidableEq

namespace LocalRelay

/-- One step of `relay_agent_stream`, with the message it sends. `listening` says whether the
channel still takes messages, `registered` whether the sender of the inbox is still in the map. -/
def step (listening registered : Bool) (r : LocalRelay) (e : LocalEvent) :
    Option (LocalRelay × Option Msg) :=
  match r.pc, e with
  | .connecting, .connected ok =>
    some ({ r with pc := if ok then .relaying else .closing }, none)
  | .relaying, .io e => (r.pump.io 4096 e).map fun pump => ({ r with pump := pump }, none)
  | .relaying, .sendData =>
    match r.pump.pc with
    | .handing data =>
      some ({ r with pump := r.pump.handed listening }, some (.agentData r.id data))
    | _ => none
  | .relaying, .inboxClosed =>
    if registered then none
    else r.pump.inboxClosed.map fun pump => ({ r with pump := pump }, none)
  | .relaying, .leave =>
    match r.pump.pc with
    -- An `AgentClose` is only due when it was the local agent that ended the stream.
    | .stopped why => some ({ r with pc := if why = .connection then .closing else .ended }, none)
    | _ => none
  | .closing, .sendClose => some ({ r with pc := .ended }, some (.agentClose r.id))
  | _, _ => none

/-- Every step of a connection to the local agent. -/
inductive Step (listening registered : Bool) (r : LocalRelay) :
    LocalEvent → LocalRelay → Option Msg → Prop
  | connected {ok : Bool} (hp : r.pc = .connecting) :
      Step listening registered r (.connected ok)
        { r with pc := if ok then .relaying else .closing } none
  | io {e : PumpIo UInt8} {pump : Pump UInt8} (hp : r.pc = .relaying)
      (hio : Pump.Io 4096 r.pump e pump) :
      Step listening registered r (.io e) { r with pump := pump } none
  | sendData {data : Data} (hp : r.pc = .relaying) (hh : r.pump.pc = .handing data) :
      Step listening registered r .sendData { r with pump := r.pump.handed listening }
        (some (.agentData r.id data))
  | inboxClosed (hp : r.pc = .relaying) (hr : registered = false) (hi : r.pump.pc = .idle)
      (hin : r.pump.inbox = []) :
      Step listening registered r .inboxClosed
        { r with pump := { r.pump with pc := .stopped .inbox } } none
  | leave {why : Stop} (hp : r.pc = .relaying) (hs : r.pump.pc = .stopped why) :
      Step listening registered r .leave
        { r with pc := if why = .connection then .closing else .ended } none
  | sendClose (hp : r.pc = .closing) :
      Step listening registered r .sendClose { r with pc := .ended } (some (.agentClose r.id))

theorem Step.of_step {listening registered : Bool} {r r' : LocalRelay} {e : LocalEvent}
    {m : Option Msg} (h : r.step listening registered e = some (r', m)) :
    Step listening registered r e r' m := by
  unfold step at h
  split at h
  · cases h; exact .connected ‹_›
  · obtain ⟨pump, hio, heq⟩ := Option.map_eq_some_iff.mp h
    cases heq
    exact .io ‹_› (.of_io hio)
  · split at h
    · cases h; exact .sendData ‹_› ‹_›
    · cases h
  · rename_i hp
    split_ifs at h with hr
    obtain ⟨pump, hio, heq⟩ := Option.map_eq_some_iff.mp h
    obtain ⟨hi, hin, rfl⟩ := Pump.inboxClosed_eq_some hio
    cases heq
    exact .inboxClosed hp ((Bool.not_eq_true _).mp hr) hi hin
  · split at h
    · cases h; exact .leave ‹_› ‹_›
    · cases h
  · cases h; exact .sendClose ‹_›
  · cases h

end LocalRelay

/-! ## The channel -/

inductive AgentClientPc where
  | select
  | sending
  | returned
  deriving DecidableEq

/-- One call of `relay_agent_channel`. -/
structure AgentClient where
  pc : AgentClientPc
  /-- The connection whose inbox is registered for an id. -/
  streams : Nat → Option Nat
  relays : List LocalRelay
  /-- Everything that was put on the outbound queue. -/
  queued : List Msg
  /-- How much of it was taken from the queue, to be sent on the connection. -/
  sent : Nat

inductive AgentClientEvent where
  | send
  | sent
  | sendFailed
  | frame (m : Msg)
  | badFrame
  | datagram
  | disconnected
  | relay (j : Nat) (e : LocalEvent)
  deriving DecidableEq

namespace AgentClient

def start : AgentClient := ⟨.select, fun _ => none, [], [], 0⟩

/-- `relay_agent_channel` returns, and drops its queue and its map of streams. -/
def leave (c : AgentClient) : AgentClient :=
  { c with pc := .returned, streams := fun _ => none }

/-- A message from the server. -/
def onFrame (c : AgentClient) : Msg → AgentClient
  | .agentOpen id =>
    { c with
      streams := Function.update c.streams id (some c.relays.length)
      relays := c.relays ++ [⟨id, .connecting, .start⟩] }
  | .agentData id data =>
    match c.streams id with
    | some j => { c with relays := c.relays.modify j fun r => { r with pump := r.pump.push data } }
    | none => c
  | .agentClose id => { c with streams := Function.update c.streams id none }
  | _ => c

def listening (c : AgentClient) : Bool := c.pc ≠ .returned

/-- Put a message on the outbound queue, if it is still there. -/
def enqueue (c : AgentClient) (m : Option Msg) : List Msg :=
  if c.listening then c.queued ++ m.toList else c.queued

def step (c : AgentClient) (e : AgentClientEvent) : Option AgentClient :=
  match c.pc, e with
  | .select, .send =>
    if c.sent < c.queued.length then some { c with pc := .sending, sent := c.sent + 1 } else none
  | .sending, .sent => some { c with pc := .select }
  | .sending, .sendFailed => some c.leave
  | .select, .frame m => some (c.onFrame m)
  | .select, .datagram => some c
  | .select, .badFrame | .select, .disconnected => some c.leave
  | _, .relay j e =>
    c.relays[j]?.bind fun r => (r.step c.listening (c.streams r.id = some j) e).map fun (r', m) =>
      { c with relays := c.relays.set j r', queued := c.enqueue m }
  | _, _ => none

/-- Every step of the client's side of an agent channel. -/
inductive Step (c : AgentClient) : AgentClientEvent → AgentClient → Prop
  | send (hp : c.pc = .select) (hs : c.sent < c.queued.length) :
      Step c .send { c with pc := .sending, sent := c.sent + 1 }
  | sent (hp : c.pc = .sending) : Step c .sent { c with pc := .select }
  | sendFailed (hp : c.pc = .sending) : Step c .sendFailed c.leave
  | frame {m : Msg} (hp : c.pc = .select) : Step c (.frame m) (c.onFrame m)
  | datagram (hp : c.pc = .select) : Step c .datagram c
  | badFrame (hp : c.pc = .select) : Step c .badFrame c.leave
  | disconnected (hp : c.pc = .select) : Step c .disconnected c.leave
  | relay {j : Nat} {r r' : LocalRelay} {e : LocalEvent} {m : Option Msg}
      (hr : c.relays[j]? = some r)
      (hs : LocalRelay.Step c.listening (c.streams r.id = some j) r e r' m) :
      Step c (.relay j e) { c with relays := c.relays.set j r', queued := c.enqueue m }

theorem Step.of_step {c c' : AgentClient} {e : AgentClientEvent} (h : c.step e = some c') :
    Step c e c' := by
  unfold step at h
  split at h
  · split_ifs at h with hs
    cases h; exact .send ‹_› hs
  · cases h; exact .sent ‹_›
  · cases h; exact .sendFailed ‹_›
  · cases h; exact .frame ‹_›
  · cases h; exact .datagram ‹_›
  · cases h; exact .badFrame ‹_›
  · cases h; exact .disconnected ‹_›
  · obtain ⟨r, hr, h⟩ := Option.bind_eq_some_iff.mp h
    obtain ⟨⟨r', m⟩, hs, rfl⟩ := Option.map_eq_some_iff.mp h
    exact .relay hr (.of_step hs)
  · cases h

/-! ## Bytes through the client -/

/-- A connection to the local agent, after the messages `got` were received and `queued` were
queued: it writes what came for it, and what was queued for it is what it read. -/
structure LocalOk (got queued : List Msg) (registered : Prop) (r : LocalRelay) : Prop where
  opened : .agentOpen r.id ∈ got
  behind : r.pump.Behind (dataOf r.id got)
  full : registered → r.pump.running = true → r.pump.received = dataOf r.id got
  sent : dataOf r.id queued <+: r.pump.read
  handed : r.pump.running = true → dataOf r.id queued ++ r.pump.unhanded = r.pump.read

/-- The client's side after the messages `got` were received. -/
structure ClientOk (got : List Msg) (c : AgentClient) : Prop where
  relay : ∀ j r, c.relays[j]? = some r → LocalOk got c.queued (c.streams r.id = some j) r
  unique : (c.relays.map (·.id)).Nodup
  refers : ∀ id j, c.streams id = some j → (c.relays.map (·.id))[j]? = some id
  silent : ∀ id data, .agentData id data ∈ c.queued → id ∈ c.relays.map (·.id)

theorem clientOk_start : ClientOk [] start where
  relay := fun j r hr => by cases hr
  unique := List.nodup_nil
  refers := fun id j hj => by cases hj
  silent := fun id data hmem => by cases hmem

variable {got : List Msg} {c c' : AgentClient}

theorem LocalOk.of_registered {queued : List Msg} {P Q : Prop} {r : LocalRelay}
    (h : LocalOk got queued P r) (hpq : Q → P) : LocalOk got queued Q r :=
  { h with full := fun hq => h.full (hpq hq) }

/-- Leaving drops the map of streams, and with it the promise to deliver. -/
theorem ClientOk.unregister (h : ClientOk got c) {streams : Nat → Option Nat} {pc : AgentClientPc}
    {sent : Nat} (hst : ∀ id j, streams id = some j → c.streams id = some j) :
    ClientOk got { c with pc := pc, streams := streams, sent := sent } where
  relay := fun j r hr => (h.relay j r hr).of_registered (hst r.id j)
  unique := h.unique
  refers := fun id j hj => h.refers id j (hst id j hj)
  silent := h.silent

/-- A message that carries nothing for the stream. -/
theorem LocalOk.skip {queued : List Msg} {registered : Prop} {r : LocalRelay} {m : Msg}
    (h : LocalOk got queued registered r) (hm : ∀ data, m ≠ .agentData r.id data) :
    LocalOk (got ++ [m]) queued registered r := by
  have heq : dataOf r.id (got ++ [m]) = dataOf r.id got := by
    rw [dataOf_append, dataOf_singleton hm, List.append_nil]
  exact {
    opened := List.mem_append_left _ h.opened
    behind := heq ▸ h.behind
    full := heq ▸ h.full
    sent := h.sent
    handed := h.handed }

/-- A chunk for the stream, while its inbox is registered. -/
theorem LocalOk.push {queued : List Msg} {registered : Prop} {r : LocalRelay} {data : Data}
    (h : LocalOk got queued registered r) (hreg : registered) :
    LocalOk (got ++ [.agentData r.id data]) queued registered
      { r with pump := r.pump.push data } := by
  have heq : dataOf r.id (got ++ [.agentData r.id data]) = dataOf r.id got ++ data := by
    rw [dataOf_append, dataOf_data_self]
  exact {
    opened := List.mem_append_left _ h.opened
    behind := heq ▸ h.behind.push (h.full hreg)
    full := fun hreg hrun => by
      rw [heq, Pump.push_received, h.full hreg hrun]
    sent := h.sent
    handed := h.handed }

theorem LocalOk.drop {queued : List Msg} {registered : Prop} {r : LocalRelay} {m : Msg}
    (h : LocalOk got queued registered r) (hreg : ¬ registered) :
    LocalOk (got ++ [m]) queued registered r where
  opened := List.mem_append_left _ h.opened
  behind := h.behind.mono (dataOf_mono (List.prefix_append _ _))
  full := fun hr => absurd hr hreg
  sent := h.sent
  handed := h.handed

theorem ClientOk.opened (h : ClientOk got c) {id : Nat} (hid : id ∈ c.relays.map (·.id)) :
    .agentOpen id ∈ got := by
  obtain ⟨r, hr, rfl⟩ := List.mem_map.mp hid
  obtain ⟨j, hj⟩ := List.mem_iff_getElem?.mp hr
  exact (h.relay j r hj).opened

theorem ClientOk.dataOf_queued (h : ClientOk got c) {id : Nat} (hid : .agentOpen id ∉ got) :
    dataOf id c.queued = [] :=
  dataOf_eq_nil fun data hmem => hid (h.opened (h.silent id data hmem))

theorem ClientOk.onOpen (h : ClientOk got c) {id : Nat} (hid : .agentOpen id ∉ got)
    (hdata : dataOf id got = []) :
    ClientOk (got ++ [.agentOpen id]) (c.onFrame (.agentOpen id)) := by
  have hids : (c.onFrame (.agentOpen id)).relays.map (·.id) = c.relays.map (·.id) ++ [id] := by
    simp [onFrame]
  have hnew : id ∉ c.relays.map (·.id) := fun hmem => hid (h.opened hmem)
  refine { relay := ?_, unique := ?_, refers := ?_, silent := ?_ }
  · intro j r hr
    rcases Table.of_concat hr with hold | ⟨-, rfl⟩
    · refine ((h.relay j r hold).skip fun data hd => by cases hd).of_registered fun hreg => ?_
      have hne : r.id ≠ id := by
        rintro rfl
        exact hnew (List.mem_map_of_mem (List.mem_of_getElem? hold))
      simpa [onFrame, Function.update_of_ne hne] using hreg
    · have hgot : dataOf id (got ++ [.agentOpen id]) = [] := by
        rw [dataOf_append, hdata, dataOf_singleton (fun data hd => by cases hd)]
        rfl
      have hqueued : dataOf id (c.onFrame (.agentOpen id)).queued = [] := h.dataOf_queued hid
      refine ⟨by simp, ⟨?_, fun _ => ?_⟩, fun _ _ => ?_, ?_, fun _ => ?_⟩
      · exact List.nil_prefix
      · exact List.nil_prefix
      · exact hgot.symm
      · rw [hqueued]
        exact List.nil_prefix
      · rw [hqueued]
        rfl
  · rw [hids, List.nodup_append]
    refine ⟨h.unique, by simp, fun id' hmem id'' hid'' heq => ?_⟩
    rw [List.mem_singleton] at hid''
    exact hnew (hid'' ▸ heq ▸ hmem)
  · intro id' j hj
    rw [hids]
    simp only [onFrame] at hj
    by_cases hid' : id' = id
    · subst hid'
      rw [Function.update_self] at hj
      cases hj
      rw [← List.length_map (f := (·.id)), List.getElem?_concat_length]
    · rw [Function.update_of_ne hid'] at hj
      have hold := h.refers id' j hj
      rw [List.getElem?_append_left (Table.lt_of_getElem? hold), hold]
  · intro id' data hmem
    rw [hids]
    exact List.mem_append_left _ (h.silent id' data hmem)

theorem ClientOk.onData (h : ClientOk got c) (id : Nat) (data : Data) :
    ClientOk (got ++ [.agentData id data]) (c.onFrame (.agentData id data)) := by
  cases hst : c.streams id with
  | none =>
    simp only [onFrame, hst]
    refine { h with relay := fun j r hr => ?_ }
    by_cases hid : r.id = id
    · exact (h.relay j r hr).drop (by rw [hid, hst]; simp)
    · exact (h.relay j r hr).skip fun d hd => hid (by cases hd; rfl)
  | some k =>
    simp only [onFrame, hst]
    have hids : (c.relays.modify k fun r => { r with pump := r.pump.push data }).map (·.id) =
        c.relays.map (·.id) := Table.map_modify_of_eq fun _ => rfl
    have hk := h.refers id k hst
    refine { relay := ?_, unique := hids ▸ h.unique, refers := hids ▸ h.refers,
             silent := hids ▸ h.silent }
    intro j r hr
    obtain ⟨p, hp, hpr⟩ := Table.of_modify hr
    have hpid : (c.relays.map (·.id))[j]? = some p.id := by rw [List.getElem?_map, hp]; rfl
    rcases hpr with ⟨rfl, rfl⟩ | ⟨hne, rfl⟩
    · cases hk.symm.trans hpid
      exact (h.relay j p hp).push hst
    · refine (h.relay j r hp).skip fun d hd => hne ?_
      cases hd
      exact (List.getElem?_inj (Table.lt_of_getElem? hpid) h.unique).mp (hpid.trans hk.symm)

/-- A message from the server. A stream is opened at most once, before any of its data. -/
theorem ClientOk.frame (h : ClientOk got c) {m : Msg}
    (hm : ∀ id, m = .agentOpen id → .agentOpen id ∉ got ∧ dataOf id got = []) :
    ClientOk (got ++ [m]) (c.onFrame m) := by
  have hskip : (∀ id data, m ≠ .agentData id data) → ClientOk (got ++ [m]) c := by
    intro hne
    exact { h with relay := fun j r hr => (h.relay j r hr).skip (hne r.id) }
  cases m with
  | agentOpen id => exact h.onOpen (hm id rfl).1 (hm id rfl).2
  | agentData id data => exact h.onData id data
  | agentClose id =>
    refine (hskip fun _ _ hd => by cases hd).unregister fun id' j hj => ?_
    by_cases hne : id' = id
    · subst hne
      rw [Function.update_self] at hj
      cases hj
    · rwa [Function.update_of_ne hne] at hj
  | _ => exact hskip fun _ _ hd => by cases hd

theorem enqueue_none (c : AgentClient) : c.enqueue none = c.queued := by
  simp [enqueue]

/-- A message of another stream, or none of its data. -/
theorem dataOf_enqueue {id : Nat} {m : Option Msg} (h : ∀ data, m ≠ some (.agentData id data)) :
    dataOf id (c.enqueue m) = dataOf id c.queued := by
  cases m with
  | none => rw [enqueue_none]
  | some m =>
    have hm : dataOf id [m] = [] := dataOf_singleton fun data hd => h data (congrArg some hd)
    by_cases hl : c.listening = true <;> simp [enqueue, hl, hm]

theorem LocalOk.step {P : Prop} {registered : Bool} {r r' : LocalRelay} {ev : LocalEvent}
    {m : Option Msg} (h : LocalOk got c.queued P r)
    (hs : LocalRelay.Step c.listening registered r ev r' m) :
    r'.id = r.id ∧ LocalOk got (c.enqueue m) P r' := by
  cases hs with
  | connected => exact ⟨rfl, c.enqueue_none ▸ { h with }⟩
  | leave => exact ⟨rfl, c.enqueue_none ▸ { h with }⟩
  | @io _ pump _ hio =>
    rw [enqueue_none]
    refine ⟨rfl, h.opened, h.behind.io hio, fun hreg hrun => ?_, h.sent.trans hio.read_le, ?_⟩
    · exact (hio.received hrun).trans (h.full hreg hio.running)
    · exact hio.handed (h.handed hio.running)
  | @sendData data _ hh =>
    have hrun := Pump.running_of_handing hh
    have hread : dataOf r.id c.queued ++ data = r.pump.read := by
      simpa [Pump.unhanded, hh] using h.handed hrun
    refine ⟨rfl, h.opened, h.behind.handed hh _, fun hreg _ => ?_, ?_, fun hl => ?_⟩
    · rw [Pump.handed_received hh]
      exact h.full hreg hrun
    · by_cases hl : c.listening = true
      · simp [enqueue, hl, hread]
      · simpa [enqueue, hl] using h.sent
    · rw [Pump.handed_running] at hl
      simp [enqueue, hl, hread]
  | inboxClosed =>
    rw [enqueue_none]
    refine ⟨rfl, h.opened, h.behind.stop _, fun _ hrun => ?_, h.sent, fun hrun => ?_⟩
    · cases hrun
    · cases hrun
  | sendClose =>
    have hq : dataOf r.id (c.enqueue (some (.agentClose r.id))) = dataOf r.id c.queued :=
      dataOf_enqueue (by simp)
    exact ⟨rfl, h.opened, h.behind, h.full, hq ▸ h.sent, hq ▸ h.handed⟩

/-- A connection only sends data of its own stream. -/
theorem id_of_send {listening registered : Bool} {r r' : LocalRelay} {ev : LocalEvent} {id : Nat}
    {data : Data}
    (hs : LocalRelay.Step listening registered r ev r' (some (.agentData id data))) :
    id = r.id := by
  cases hs
  rfl

theorem ClientOk.relayStep (h : ClientOk got c) {j : Nat} {r r' : LocalRelay} {ev : LocalEvent}
    {registered : Bool} {m : Option Msg} (hr : c.relays[j]? = some r)
    (hs : LocalRelay.Step c.listening registered r ev r' m) :
    ClientOk got { c with relays := c.relays.set j r', queued := c.enqueue m } := by
  obtain ⟨hid, hok⟩ := (h.relay j r hr).step hs
  have hids : (c.relays.set j r').map (·.id) = c.relays.map (·.id) := Table.map_set_of_eq hr hid
  have hrid : (c.relays.map (·.id))[j]? = some r.id := by rw [List.getElem?_map, hr]; rfl
  refine { relay := ?_, unique := hids ▸ h.unique, refers := hids ▸ h.refers, silent := ?_ }
  · intro i q hq
    rcases Table.of_set hq with ⟨rfl, rfl⟩ | ⟨hne, hq⟩
    · exact hid ▸ hok
    · have hqid : (c.relays.map (·.id))[i]? = some q.id := by rw [List.getElem?_map, hq]; rfl
      have heq : dataOf q.id (c.enqueue m) = dataOf q.id c.queued := by
        refine dataOf_enqueue fun data hm => hne ?_
        subst hm
        rw [id_of_send hs] at hqid
        exact (List.getElem?_inj (Table.lt_of_getElem? hqid) h.unique).mp (hqid.trans hrid.symm)
      have hold := h.relay i q hq
      exact ⟨hold.opened, hold.behind, hold.full, heq ▸ hold.sent, heq ▸ hold.handed⟩
  · intro id data hmem
    simp only [hids]
    by_cases hl : c.listening = true
    · simp only [enqueue, hl, if_true, List.mem_append, Option.mem_toList] at hmem
      rcases hmem with hmem | rfl
      · exact h.silent id data hmem
      · rw [id_of_send hs]
        exact List.mem_of_getElem? hrid
    · simp only [enqueue, hl] at hmem
      exact h.silent id data hmem

theorem ClientOk.step (h : ClientOk got c) {ev : AgentClientEvent} (hs : Step c ev c')
    (hev : ∀ m, ev ≠ .frame m) : ClientOk got c' := by
  cases hs with
  | send => exact h.unregister fun _ _ hj => hj
  | sent => exact h.unregister fun _ _ hj => hj
  | sendFailed => exact h.unregister fun _ _ hj => by cases hj
  | badFrame => exact h.unregister fun _ _ hj => by cases hj
  | disconnected => exact h.unregister fun _ _ hj => by cases hj
  | datagram => exact h
  | frame => exact absurd rfl (hev _)
  | relay hr hs => exact h.relayStep hr hs

theorem queued_le {ev : AgentClientEvent} (hs : Step c ev c') : c.queued <+: c'.queued := by
  cases hs with
  | @frame m =>
    cases m with
    | agentData id => cases hst : c.streams id <;> simp [onFrame, hst]
    | _ => exact List.prefix_refl _
  | relay =>
    by_cases hl : c.listening = true <;> simp [enqueue, hl]
  | _ => exact List.prefix_refl _

end AgentClient

end HerdrEternal
