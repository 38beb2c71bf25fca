import HerdrEternal.System.Resume

/-!
# One connection, two ends

One connection as two bounded channels, with the exec loop of the client at one end and the attach
loop of the server at the other, and the session task behind it. The connection does not fail, so
nothing but the two loops decides when they read and when they send.

**Traffic.** Some messages are sent because something else was received: the client acknowledges
output, the server acknowledges stdin. All others start on the connection: stdin that the client
sends or resends, log entries that the server sends, duplicates that arrive, and keepalive pings.
`traffic` counts these, and the acknowledgements that are owed for stdin from before the
connection.

* `system_run`: a run on the connection is a run of the whole system, on its live connection.
-/

namespace HerdrEternal

/-! ## One connection -/

/-- What the client does on a connection without using it. -/
def ClientEvent.isOwn : ClientEvent → Bool
  | .connectFailed _ | .stdinData _ | .stdinEof | .stdinError | .wrote _ | .writeFailed | .flushed
  | .tick _ => true
  | _ => false

def AttachEvent.isOwn : AttachEvent → Bool
  | .snapshot | .tick _ | .changed => true
  | _ => false

/-- The client has just begun to send a message that answers none. -/
def Client.originates (c : Client) : Nat :=
  match c.pc with
  | .resend .. | .sendFresh _ | .ping => 1
  | _ => 0

def Attach.originates (a : Attach) : Nat :=
  match a.pc with
  | .replay .. | .ping => 1
  | _ => 0

structure Duplex where
  quic : Bool
  client : Client
  attach : Attach
  session : Session
  c2s : List Wire
  s2c : List Wire
  /-- What was duplicated by datagram. -/
  c2sDup : List Msg
  s2cDup : List Msg
  /-- How many messages have started on the connection. -/
  traffic : Nat
  deriving DecidableEq

inductive DuplexLabel where
  | client (e : ClientEvent)
  | clientSent
  | clientRecv
  | clientDatagram (m : Msg)
  | attach (e : AttachEvent)
  | attachSent
  | attachRecv
  | attachDatagram (m : Msg)
  | task (e : TaskEvent)
  deriving DecidableEq

/-- The input may have stdin in it. -/
def SessionInput.carriesStdin : SessionInput → Bool
  | .message (.stdin ..) | .message (.stdinEof _) | .datagram (.stdin ..) => true
  | _ => false

/-- Stdin on its way to the child, by the number of messages. -/
def Session.load (s : Session) : Nat :=
  s.inbound.countP (·.carriesStdin) + match s.task.phase with
    | .writing _ => 1
    | _ => 0

/-- Whether stdin is applied beyond number `n`. -/
def Session.owes (s : Session) (n : Nat) : Nat := if n < s.stdinApplied then 1 else 0

namespace Duplex

def setClient (x : Duplex) (c : Client) : Duplex :=
  { x with client := c, traffic := x.traffic + c.originates }

def setAttach (x : Duplex) (a : Attach × Session) : Duplex :=
  { x with attach := a.1, session := a.2, traffic := x.traffic + a.1.originates }

/-- Put the client's message on the stream. -/
def clientPut (x : Duplex) (w : Wire) : Duplex :=
  let dup := match x.client.pc with
    | .sendFresh m => Sys.duplicate x.quic m
    | _ => []
  { x with c2s := x.c2s ++ [w], c2sDup := x.c2sDup ++ dup }

/-- Put the attach loop's message on the stream. -/
def attachPut (x : Duplex) (w : Wire) : Duplex :=
  let dup := match x.attach.pc with
    | .replay m _ => Sys.duplicate x.quic m
    | _ => []
  { x with s2c := x.s2c ++ [w], s2cDup := x.s2cDup ++ dup }

def step (cap : Capacity) (x : Duplex) : DuplexLabel → Option Duplex
  | .client e => if e.isOwn then (x.client.step x.quic e).map x.setClient else none
  | .clientSent =>
    x.client.sending.bind fun w =>
      if x.c2s.length < cap.c2s then
        (x.client.step x.quic .sent).map (x.clientPut w).setClient
      else none
  | .clientRecv =>
    match x.s2c with
    | [] => none
    | .ping :: rest =>
      if x.client.pc = .select ∨ x.client.pc = .connecting then some { x with s2c := rest }
      else none
    | .msg m :: rest => (x.client.step x.quic (.frame m)).map { x with s2c := rest }.setClient
  -- A duplicate that arrives counts as a message of its own.
  | .clientDatagram m =>
    if x.s2cDup.contains m then
      (x.client.step x.quic (.datagram m)).map { x with traffic := x.traffic + 1 }.setClient
    else none
  | .attach e => if e.isOwn then (x.attach.step x.quic x.session e).map x.setAttach else none
  | .attachSent =>
    (x.attach.sending x.session).bind fun w =>
      if x.s2c.length < cap.s2c then
        (x.attach.step x.quic x.session .sent).map (x.attachPut w).setAttach
      else none
  | .attachRecv =>
    match x.c2s with
    | [] => none
    | .ping :: rest => if x.attach.pc = .select then some { x with c2s := rest } else none
    | .msg m :: rest =>
      (x.attach.step x.quic x.session (.frame m)).map { x with c2s := rest }.setAttach
  | .attachDatagram m =>
    if x.c2sDup.contains m then
      (x.attach.step x.quic x.session (.datagram m)).map
        { x with traffic := x.traffic + 1 }.setAttach
    else none
  -- The attach loop holds the session, so its queue has a sender.
  | .task e =>
    if e = .recvNone then none
    else (x.session.taskStep e).map fun s => { x with session := s }

/-- The server has accepted the request of a client, fresh or resumed. -/
def start (quic : Bool) (c : Client) (token : String) (s : Session) : Duplex where
  quic := quic
  client := { c with pc := .connecting }
  attach := .start token c.lastServerSeq
  session := s
  c2s := []
  s2c := []
  c2sDup := []
  s2cDup := []
  traffic := s.load + s.owes 0

def machine (cap : Capacity) : Machine Duplex DuplexLabel where
  init x := ∃ quic c token s, x = start quic c token s
  step := step cap

/-! ## What a step can do -/

/-- Every step, with the step of the end that took it. -/
inductive Step (cap : Capacity) (x : Duplex) : DuplexLabel → Duplex → Prop
  | client {e : ClientEvent} {c : Client} (he : e.isOwn = true) (h : x.client.Step x.quic e c) :
      Step cap x (.client e) (x.setClient c)
  | clientSent {w : Wire} {c : Client} (hw : x.client.sending = some w)
      (hroom : x.c2s.length < cap.c2s) (h : x.client.Step x.quic .sent c) :
      Step cap x .clientSent ((x.clientPut w).setClient c)
  | clientPong {rest : List Wire} (hp : x.client.pc = .select ∨ x.client.pc = .connecting)
      (hq : x.s2c = .ping :: rest) : Step cap x .clientRecv { x with s2c := rest }
  | clientRecv {m : Msg} {rest : List Wire} {c : Client} (hq : x.s2c = .msg m :: rest)
      (h : x.client.Step x.quic (.frame m) c) :
      Step cap x .clientRecv ({ x with s2c := rest }.setClient c)
  | clientDatagram {m : Msg} {c : Client} (hm : m ∈ x.s2cDup)
      (h : x.client.Step x.quic (.datagram m) c) :
      Step cap x (.clientDatagram m) ({ x with traffic := x.traffic + 1 }.setClient c)
  | attach {e : AttachEvent} {a : Attach} {s : Session} (he : e.isOwn = true)
      (h : x.attach.Step x.quic x.session e a s) : Step cap x (.attach e) (x.setAttach (a, s))
  | attachSent {w : Wire} {a : Attach} {s : Session} (hw : x.attach.sending x.session = some w)
      (hroom : x.s2c.length < cap.s2c) (h : x.attach.Step x.quic x.session .sent a s) :
      Step cap x .attachSent ((x.attachPut w).setAttach (a, s))
  | attachPong {rest : List Wire} (hp : x.attach.pc = .select) (hq : x.c2s = .ping :: rest) :
      Step cap x .attachRecv { x with c2s := rest }
  | attachRecv {m : Msg} {rest : List Wire} {a : Attach} {s : Session}
      (hq : x.c2s = .msg m :: rest) (h : x.attach.Step x.quic x.session (.frame m) a s) :
      Step cap x .attachRecv ({ x with c2s := rest }.setAttach (a, s))
  | attachDatagram {m : Msg} {a : Attach} {s : Session} (hm : m ∈ x.c2sDup)
      (h : x.attach.Step x.quic x.session (.datagram m) a s) :
      Step cap x (.attachDatagram m) ({ x with traffic := x.traffic + 1 }.setAttach (a, s))
  | task {e : TaskEvent} {s : Session} (h : x.session.taskStep e = some s) :
      Step cap x (.task e) { x with session := s }

theorem Step.of_step {cap : Capacity} {x y : Duplex} {l : DuplexLabel}
    (h : x.step cap l = some y) : Step cap x l y := by
  cases l with
  | client e =>
    simp only [step] at h
    split_ifs at h with he
    obtain ⟨c, hc, rfl⟩ := Option.map_eq_some_iff.mp h
    exact .client he (.of_step hc)
  | clientSent =>
    obtain ⟨w, hw, h⟩ := Option.bind_eq_some_iff.mp h
    split_ifs at h with hroom
    obtain ⟨c, hc, rfl⟩ := Option.map_eq_some_iff.mp h
    exact .clientSent hw hroom (.of_step hc)
  | clientRecv =>
    simp only [step] at h
    split at h
    · cases h
    · rename_i rest hq
      split_ifs at h with hp
      cases h
      exact .clientPong hp hq
    · rename_i m rest hq
      obtain ⟨c, hc, rfl⟩ := Option.map_eq_some_iff.mp h
      exact .clientRecv hq (.of_step hc)
  | clientDatagram m =>
    simp only [step] at h
    split_ifs at h with hm
    obtain ⟨c, hc, rfl⟩ := Option.map_eq_some_iff.mp h
    exact .clientDatagram (List.contains_iff_mem.mp hm) (.of_step hc)
  | attach e =>
    simp only [step] at h
    split_ifs at h with he
    obtain ⟨⟨a, s⟩, ha, rfl⟩ := Option.map_eq_some_iff.mp h
    exact .attach he (.of_step ha)
  | attachSent =>
    obtain ⟨w, hw, h⟩ := Option.bind_eq_some_iff.mp h
    split_ifs at h with hroom
    obtain ⟨⟨a, s⟩, ha, rfl⟩ := Option.map_eq_some_iff.mp h
    exact .attachSent hw hroom (.of_step ha)
  | attachRecv =>
    simp only [step] at h
    split at h
    · cases h
    · rename_i rest hq
      split_ifs at h with hp
      cases h
      exact .attachPong hp hq
    · rename_i m rest hq
      obtain ⟨⟨a, s⟩, ha, rfl⟩ := Option.map_eq_some_iff.mp h
      exact .attachRecv hq (.of_step ha)
  | attachDatagram m =>
    simp only [step] at h
    split_ifs at h with hm
    obtain ⟨⟨a, s⟩, ha, rfl⟩ := Option.map_eq_some_iff.mp h
    exact .attachDatagram (List.contains_iff_mem.mp hm) (.of_step ha)
  | task e =>
    simp only [step] at h
    split_ifs at h
    obtain ⟨s, hs, rfl⟩ := Option.map_eq_some_iff.mp h
    exact .task hs

/-! ## One connection among many -/

/-- The step as one of the whole system, on its live connection. -/
def label : DuplexLabel → Label
  | .client e => .client e
  | .clientSent => .clientSent
  | .clientRecv => .clientRecv
  | .clientDatagram m => .clientDatagram m
  | .attach e => .attach .live e
  | .attachSent => .attachSent .live
  | .attachRecv => .attachRecv .live
  | .attachDatagram m => .attachDatagram .live m
  | .task e => .task e

/-- The system that has this connection as its live one, next to older ones. -/
def system (x : Duplex) (token : String) (lastSeqSeen : Nat) (stale : List Conn) : Sys where
  token := token
  client := x.client
  session := x.session
  live := ⟨x.quic, lastSeqSeen, some x.attach, x.c2s, x.s2c, x.c2sDup, x.s2cDup⟩
  stale := stale

section System

variable {cap : Capacity} {x y : Duplex} {l : DuplexLabel} {token : String} {n : Nat}
  {stale : List Conn}

/-- Every step on the connection is a step of the system. -/
theorem system_step (h : x.step cap l = some y) :
    (x.system token n stale).step cap (label l) = some (y.system token n stale) := by
  cases l with
  | client e =>
    simp only [step] at h
    split_ifs at h with he
    obtain ⟨c, hc, rfl⟩ := Option.map_eq_some_iff.mp h
    have hlocal : e.isLocal = true := by cases e <;> first | rfl | cases he
    simp [label, Sys.step, system, setClient, hlocal, hc]
  | clientSent =>
    obtain ⟨w, hw, h⟩ := Option.bind_eq_some_iff.mp h
    split_ifs at h with hroom
    obtain ⟨c, hc, rfl⟩ := Option.map_eq_some_iff.mp h
    show x.client.sending.bind _ = _
    rw [hw, Option.bind_some,
      if_pos (show (x.system token n stale).live.c2s.length < cap.c2s from hroom)]
    show (x.client.step x.quic .sent).map _ = _
    rw [hc]
    rfl
  | clientRecv =>
    simp only [step] at h
    split at h
    · cases h
    · rename_i rest hq
      split_ifs at h with hp
      cases h
      simp [label, Sys.step, system, hq, hp]
    · rename_i m rest hq
      obtain ⟨c, hc, rfl⟩ := Option.map_eq_some_iff.mp h
      simp [label, Sys.step, system, setClient, hq, hc]
  | clientDatagram m =>
    simp only [step] at h
    split_ifs at h with hm
    obtain ⟨c, hc, rfl⟩ := Option.map_eq_some_iff.mp h
    simp [label, Sys.step, system, setClient, List.contains_iff_mem.mp hm, hc]
  | attach e =>
    simp only [step] at h
    split_ifs at h with he
    obtain ⟨⟨a, s⟩, ha, rfl⟩ := Option.map_eq_some_iff.mp h
    have hlocal : e.isLocal = true := by cases e <;> first | rfl | cases he
    simp [label, Sys.step, Sys.conn?, Sys.attachStep, Sys.setConn, system, setAttach, hlocal, ha]
  | attachSent =>
    obtain ⟨w, hw, h⟩ := Option.bind_eq_some_iff.mp h
    split_ifs at h with hroom
    obtain ⟨⟨a, s⟩, ha, rfl⟩ := Option.map_eq_some_iff.mp h
    show (x.attach.sending x.session).bind _ = _
    rw [hw, Option.bind_some,
      if_pos (show (x.system token n stale).live.s2c.length < cap.s2c from hroom)]
    show (x.attach.step x.quic x.session .sent).map _ = _
    rw [ha]
    rfl
  | attachRecv =>
    simp only [step] at h
    split at h
    · cases h
    · rename_i rest hq
      split_ifs at h with hp
      cases h
      simp [label, Sys.step, Sys.conn?, Sys.setConn, system, hq, hp]
    · rename_i m rest hq
      obtain ⟨⟨a, s⟩, ha, rfl⟩ := Option.map_eq_some_iff.mp h
      simp [label, Sys.step, Sys.conn?, Sys.attachStep, Sys.setConn, system, setAttach, hq, ha]
  | attachDatagram m =>
    simp only [step] at h
    split_ifs at h with hm
    obtain ⟨⟨a, s⟩, ha, rfl⟩ := Option.map_eq_some_iff.mp h
    simp [label, Sys.step, Sys.conn?, Sys.attachStep, Sys.setConn, system, setAttach,
      List.contains_iff_mem.mp hm, ha]
  | task e =>
    simp only [step] at h
    split_ifs at h with he
    obtain ⟨s, hs, rfl⟩ := Option.map_eq_some_iff.mp h
    simp [label, Sys.step, system, he, hs]

/-- A run on the connection is a run of the system. -/
theorem system_run {ls : List DuplexLabel}
    (hx : (Sys.machine cap).Reachable (x.system token n stale))
    (hr : (machine cap).run x ls = some y) :
    (Sys.machine cap).Reachable (y.system token n stale) := by
  induction ls generalizing x with
  | nil =>
    cases hr
    exact hx
  | cons l ls ih =>
    obtain ⟨z, hz, hr⟩ := Option.bind_eq_some_iff.mp hr
    exact ih (hx.step trivial (system_step hz)) hr

end System

end Duplex

end HerdrEternal
