import HerdrEternal.Client.RunExec
import HerdrEternal.Lib.Machine

/-!
# One session, one client, many connections

The whole system behind a resumable exec: one `run_exec`, the session it started, and every
connection between the two. The client uses only the newest connection (`live`). Connections it
gave up (`stale`) may still have an `attach` loop on the server, which goes on reading what was
sent and writing to nobody.

**A connection** is a stream in each direction, which delivers in order and may lose its tail,
and the datagrams that were duplicated on it, which may arrive at any time, in any order, again,
or never. Each direction holds at most a fixed number of messages: a send waits for room. A send
that fails may or may not have delivered its message.

**A run** starts when the server has accepted the Exec request and is about to send `Started`.
From there on every interleaving is a run: of the client, of the session task, and of any number
of `attach` loops. Requests that end the task from outside (expiry, shutdown) may come at any
time.
-/

namespace HerdrEternal

/-- One connection. `lastSeqSeen` is what its request asked to be resumed from. -/
structure Conn where
  quic : Bool
  lastSeqSeen : Nat
  /-- The server's side, once the request was read. -/
  attach : Option Attach
  c2s : List Wire
  s2c : List Wire
  c2sDup : List Msg
  s2cDup : List Msg
  deriving DecidableEq

def Conn.open_ (quic : Bool) (lastSeqSeen : Nat) : Conn := ⟨quic, lastSeqSeen, none, [], [], [], []⟩

/-- How many messages the streams of a connection hold. -/
structure Capacity where
  c2s : Nat
  s2c : Nat

structure Sys where
  token : String
  client : Client
  session : Session
  live : Conn
  stale : List Conn
  deriving DecidableEq

/-- A connection, by age. -/
inductive Ref where
  | live
  | stale (i : Nat)
  deriving DecidableEq

/-- Client events that involve no channel. -/
def ClientEvent.isLocal : ClientEvent → Bool
  | .connectFailed _ | .loggedIn | .loginFailed _ | .wake | .disconnected | .stdinData _
  | .stdinEof | .stdinError | .wrote _ | .writeFailed | .flushed | .tick _ => true
  | _ => false

/-- Server events that involve no message. -/
def AttachEvent.isLocal : AttachEvent → Bool
  | .snapshot | .tick _ | .changed | .closed | .failed => true
  | _ => false

inductive Label where
  | client (e : ClientEvent)
  /-- The client has a token and opens a new connection. -/
  | connect (quic : Bool)
  | clientSent
  | clientSendFailed (delivered : Bool)
  | clientRecv
  | clientDatagram (m : Msg)
  /-- The server reads the request of a connection. -/
  | accept (r : Ref)
  | attach (r : Ref) (e : AttachEvent)
  | attachSent (r : Ref)
  | attachSendFailed (r : Ref) (delivered : Bool)
  | attachRecv (r : Ref)
  | attachDatagram (r : Ref) (m : Msg)
  | task (e : TaskEvent)
  /-- The session leaves the registry (expiry, handover). -/
  | unregister
  /-- The task is asked to abort, or to hand the session over. -/
  | abort
  | handover
  deriving DecidableEq

namespace Sys

def conn? (s : Sys) : Ref → Option Conn
  | .live => some s.live
  | .stale i => s.stale[i]?

def setConn (s : Sys) (r : Ref) (c : Conn) : Sys :=
  match r with
  | .live => { s with live := c }
  | .stale i => { s with stale := s.stale.set i c }

/-- No connection is attached any more. -/
def detached (s : Sys) : Bool :=
  (s.live :: s.stale).all fun c => c.attach.all fun a => a.pc = .returned

/-- The duplicate that goes with a message of a stream, if it is worth one. -/
def duplicate (quic : Bool) (m : Msg) : List Msg := if quic && m.worthDuplicating then [m] else []

/-- Put the client's message on the live stream; a fresh stdin message is duplicated. -/
def clientPut (s : Sys) (w : Wire) : Sys :=
  let dup := match s.client.pc with
    | .sendFresh m => duplicate s.live.quic m
    | _ => []
  { s with live := { s.live with c2s := s.live.c2s ++ [w], c2sDup := s.live.c2sDup ++ dup } }

/-- Put an `attach` loop's message on its stream; log entries are duplicated. -/
def attachPut (c : Conn) (a : Attach) (w : Wire) : Conn :=
  let dup := match a.pc with
    | .replay m _ => duplicate c.quic m
    | _ => []
  { c with s2c := c.s2c ++ [w], s2cDup := c.s2cDup ++ dup }

/-- Run an `attach` step on connection `c`, known as `r`. -/
def attachStep (s : Sys) (r : Ref) (c : Conn) (a : Attach) (e : AttachEvent) : Option Sys :=
  (a.step c.quic s.session e).map fun (a', session') =>
    { s with session := session' }.setConn r { c with attach := some a' }

/-- The server's answer to a request: attach, or deny and forget. -/
def answer (s : Sys) (c : Conn) : Conn :=
  if s.session.registered then { c with attach := some (.start s.token c.lastSeqSeen) }
  else
    { c with
      attach := some (Attach.start s.token c.lastSeqSeen).return_
      s2c := c.s2c ++ [.msg (.denied "unknown resume token")] }

def step (cap : Capacity) (s : Sys) : Label → Option Sys
  | .client e =>
    if e.isLocal then (s.client.step s.live.quic e).map fun c => { s with client := c } else none
  | .connect quic =>
    (s.client.step quic .authenticated).map fun c =>
      { s with client := c, live := .open_ quic c.lastServerSeq, stale := s.live :: s.stale }
  | .clientSent =>
    s.client.sending.bind fun w =>
      if s.live.c2s.length < cap.c2s then
        (s.client.step s.live.quic .sent).map fun c => { s.clientPut w with client := c }
      else none
  | .clientSendFailed delivered =>
    s.client.sending.bind fun w =>
      (s.client.step s.live.quic .sendFailed).map fun c =>
        if delivered && s.live.c2s.length < cap.c2s then
          { s with client := c, live := { s.live with c2s := s.live.c2s ++ [w] } }
        else { s with client := c }
  | .clientRecv =>
    match s.live.s2c with
    | [] => none
    | .ping :: rest =>
      if s.client.pc = .select ∨ s.client.pc = .connecting then
        some { s with live := { s.live with s2c := rest } }
      else none
    | .msg m :: rest =>
      (s.client.step s.live.quic (.frame m)).map fun c =>
        { s with client := c, live := { s.live with s2c := rest } }
  | .clientDatagram m =>
    if m ∈ s.live.s2cDup then
      (s.client.step s.live.quic (.datagram m)).map fun c => { s with client := c }
    else none
  | .accept r =>
    (s.conn? r).bind fun c =>
      if c.attach.isNone then some (s.setConn r (s.answer c)) else none
  | .attach r e =>
    (s.conn? r).bind fun c => c.attach.bind fun a =>
      if e.isLocal then s.attachStep r c a e else none
  | .attachSent r =>
    (s.conn? r).bind fun c => c.attach.bind fun a => (a.sending s.session).bind fun w =>
      if c.s2c.length < cap.s2c then s.attachStep r (attachPut c a w) a .sent else none
  | .attachSendFailed r delivered =>
    (s.conn? r).bind fun c => c.attach.bind fun a => (a.sending s.session).bind fun w =>
      let c := if delivered && c.s2c.length < cap.s2c then { c with s2c := c.s2c ++ [w] } else c
      s.attachStep r c a .sendFailed
  | .attachRecv r =>
    (s.conn? r).bind fun c => c.attach.bind fun a =>
      match c.c2s with
      | [] => none
      | .ping :: rest =>
        if a.pc = .select then some (s.setConn r { c with c2s := rest }) else none
      | .msg m :: rest => s.attachStep r { c with c2s := rest } a (.frame m)
  | .attachDatagram r m =>
    (s.conn? r).bind fun c => c.attach.bind fun a =>
      if m ∈ c.c2sDup then s.attachStep r c a (.datagram m) else none
  | .task e =>
    if e = .recvNone ∧ (s.session.registered ∨ ¬ s.detached) then none
    else (s.session.taskStep e).map fun session => { s with session := session }
  | .unregister => some { s with session := s.session.unregister }
  | .abort => some { s with session := s.session.enqueue .abort }
  | .handover => some { s with session := s.session.enqueue .handover }

/-! ## What a step can do -/

/-- An `attach` step on connection `r`, which the channel left as `k`. -/
def withAttach (s : Sys) (r : Ref) (k : Conn) (a : Attach) (session : Session) : Sys :=
  { s with session := session }.setConn r { k with attach := some a }

/-- Every step of the system, with the step of the party that took it. -/
inductive Step (cap : Capacity) (s : Sys) : Label → Sys → Prop
  | client {e : ClientEvent} {c : Client} (hl : e.isLocal = true)
      (h : s.client.Step s.live.quic e c) : Step cap s (.client e) { s with client := c }
  | connect {quic : Bool} {c : Client} (h : s.client.Step quic .authenticated c) :
      Step cap s (.connect quic)
        { s with client := c, live := .open_ quic c.lastServerSeq, stale := s.live :: s.stale }
  | clientSent {w : Wire} {c : Client} (hw : s.client.sending = some w)
      (hroom : s.live.c2s.length < cap.c2s) (h : s.client.Step s.live.quic .sent c) :
      Step cap s .clientSent { s.clientPut w with client := c }
  | clientSendLate {w : Wire} {c : Client} (hw : s.client.sending = some w)
      (hroom : s.live.c2s.length < cap.c2s) (h : s.client.Step s.live.quic .sendFailed c) :
      Step cap s (.clientSendFailed true)
        { s with client := c, live := { s.live with c2s := s.live.c2s ++ [w] } }
  | clientSendLost {w : Wire} {c : Client} {delivered : Bool} (hw : s.client.sending = some w)
      (h : s.client.Step s.live.quic .sendFailed c) :
      Step cap s (.clientSendFailed delivered) { s with client := c }
  | clientPong {rest : List Wire} (hq : s.live.s2c = .ping :: rest)
      (hp : s.client.pc = .select ∨ s.client.pc = .connecting) :
      Step cap s .clientRecv { s with live := { s.live with s2c := rest } }
  | clientRecv {m : Msg} {rest : List Wire} {c : Client} (hq : s.live.s2c = .msg m :: rest)
      (h : s.client.Step s.live.quic (.frame m) c) :
      Step cap s .clientRecv { s with client := c, live := { s.live with s2c := rest } }
  | clientDatagram {m : Msg} {c : Client} (hm : m ∈ s.live.s2cDup)
      (h : s.client.Step s.live.quic (.datagram m) c) :
      Step cap s (.clientDatagram m) { s with client := c }
  | accept {r : Ref} {k : Conn} (hk : s.conn? r = some k) (ha : k.attach = none) :
      Step cap s (.accept r) (s.setConn r (s.answer k))
  | attach {r : Ref} {k : Conn} {a a' : Attach} {e : AttachEvent} {session : Session}
      (hk : s.conn? r = some k) (ha : k.attach = some a) (hl : e.isLocal = true)
      (h : a.Step k.quic s.session e a' session) :
      Step cap s (.attach r e) (s.withAttach r k a' session)
  | attachSent {r : Ref} {k : Conn} {a a' : Attach} {w : Wire} {session : Session}
      (hk : s.conn? r = some k) (ha : k.attach = some a) (hw : a.sending s.session = some w)
      (hroom : k.s2c.length < cap.s2c) (h : a.Step k.quic s.session .sent a' session) :
      Step cap s (.attachSent r) (s.withAttach r (attachPut k a w) a' session)
  | attachSendLate {r : Ref} {k : Conn} {a a' : Attach} {w : Wire} {session : Session}
      (hk : s.conn? r = some k) (ha : k.attach = some a) (hw : a.sending s.session = some w)
      (hroom : k.s2c.length < cap.s2c) (h : a.Step k.quic s.session .sendFailed a' session) :
      Step cap s (.attachSendFailed r true)
        (s.withAttach r { k with s2c := k.s2c ++ [w] } a' session)
  | attachSendLost {r : Ref} {k : Conn} {a a' : Attach} {w : Wire} {delivered : Bool}
      {session : Session} (hk : s.conn? r = some k) (ha : k.attach = some a)
      (hw : a.sending s.session = some w) (h : a.Step k.quic s.session .sendFailed a' session) :
      Step cap s (.attachSendFailed r delivered) (s.withAttach r k a' session)
  | attachPong {r : Ref} {k : Conn} {a : Attach} {rest : List Wire} (hk : s.conn? r = some k)
      (ha : k.attach = some a) (hq : k.c2s = .ping :: rest) (hp : a.pc = .select) :
      Step cap s (.attachRecv r) (s.setConn r { k with c2s := rest })
  | attachRecv {r : Ref} {k : Conn} {a a' : Attach} {m : Msg} {rest : List Wire}
      {session : Session} (hk : s.conn? r = some k) (ha : k.attach = some a)
      (hq : k.c2s = .msg m :: rest) (h : a.Step k.quic s.session (.frame m) a' session) :
      Step cap s (.attachRecv r) (s.withAttach r { k with c2s := rest } a' session)
  | attachDatagram {r : Ref} {k : Conn} {a a' : Attach} {m : Msg} {session : Session}
      (hk : s.conn? r = some k) (ha : k.attach = some a) (hm : m ∈ k.c2sDup)
      (h : a.Step k.quic s.session (.datagram m) a' session) :
      Step cap s (.attachDatagram r m) (s.withAttach r k a' session)
  | task {e : TaskEvent} {session : Session}
      (hg : ¬ (e = .recvNone ∧ (s.session.registered ∨ ¬ s.detached)))
      (h : s.session.taskStep e = some session) : Step cap s (.task e) { s with session := session }
  | unregister : Step cap s .unregister { s with session := s.session.unregister }
  | abort : Step cap s .abort { s with session := s.session.enqueue .abort }
  | handover : Step cap s .handover { s with session := s.session.enqueue .handover }

theorem attachStep_eq_some {s s' : Sys} {r : Ref} {k : Conn} {a : Attach} {e : AttachEvent}
    (h : s.attachStep r k a e = some s') :
    ∃ a' session, a.Step k.quic s.session e a' session ∧ s' = s.withAttach r k a' session := by
  obtain ⟨⟨a', session⟩, hs, rfl⟩ := Option.map_eq_some_iff.mp h
  exact ⟨a', session, .of_step hs, rfl⟩

theorem Step.of_step {cap : Capacity} {s s' : Sys} {l : Label} (h : s.step cap l = some s') :
    Step cap s l s' := by
  cases l with
  | client e =>
    simp only [step] at h
    split_ifs at h with hl
    obtain ⟨c, hc, rfl⟩ := Option.map_eq_some_iff.mp h
    exact .client hl (.of_step hc)
  | connect quic =>
    obtain ⟨c, hc, rfl⟩ := Option.map_eq_some_iff.mp h
    exact .connect (.of_step hc)
  | clientSent =>
    obtain ⟨w, hw, h⟩ := Option.bind_eq_some_iff.mp h
    split_ifs at h with hroom
    obtain ⟨c, hc, rfl⟩ := Option.map_eq_some_iff.mp h
    exact .clientSent hw hroom (.of_step hc)
  | clientSendFailed delivered =>
    obtain ⟨w, hw, h⟩ := Option.bind_eq_some_iff.mp h
    obtain ⟨c, hc, rfl⟩ := Option.map_eq_some_iff.mp h
    split_ifs with hd
    · simp only [Bool.and_eq_true, decide_eq_true_eq] at hd
      rw [hd.1]
      exact .clientSendLate hw hd.2 (.of_step hc)
    · exact .clientSendLost hw (.of_step hc)
  | clientRecv =>
    simp only [step] at h
    split at h
    · cases h
    · rename_i rest hq
      split_ifs at h with hp
      cases h
      exact .clientPong hq hp
    · rename_i m rest hq
      obtain ⟨c, hc, rfl⟩ := Option.map_eq_some_iff.mp h
      exact .clientRecv hq (.of_step hc)
  | clientDatagram m =>
    simp only [step] at h
    split_ifs at h with hm
    obtain ⟨c, hc, rfl⟩ := Option.map_eq_some_iff.mp h
    exact .clientDatagram hm (.of_step hc)
  | accept r =>
    obtain ⟨k, hk, h⟩ := Option.bind_eq_some_iff.mp h
    split_ifs at h with ha
    cases h
    exact .accept hk (Option.isNone_iff_eq_none.mp ha)
  | attach r e =>
    obtain ⟨k, hk, h⟩ := Option.bind_eq_some_iff.mp h
    obtain ⟨a, ha, h⟩ := Option.bind_eq_some_iff.mp h
    split_ifs at h with hl
    obtain ⟨a', session, hs, rfl⟩ := attachStep_eq_some h
    exact .attach hk ha hl hs
  | attachSent r =>
    obtain ⟨k, hk, h⟩ := Option.bind_eq_some_iff.mp h
    obtain ⟨a, ha, h⟩ := Option.bind_eq_some_iff.mp h
    obtain ⟨w, hw, h⟩ := Option.bind_eq_some_iff.mp h
    split_ifs at h with hroom
    obtain ⟨a', session, hs, rfl⟩ := attachStep_eq_some h
    exact .attachSent hk ha hw hroom hs
  | attachSendFailed r delivered =>
    obtain ⟨k, hk, h⟩ := Option.bind_eq_some_iff.mp h
    obtain ⟨a, ha, h⟩ := Option.bind_eq_some_iff.mp h
    obtain ⟨w, hw, h⟩ := Option.bind_eq_some_iff.mp h
    dsimp only at h
    split_ifs at h with hd
    · simp only [Bool.and_eq_true, decide_eq_true_eq] at hd
      obtain ⟨a', session, hs, rfl⟩ := attachStep_eq_some h
      rw [hd.1]
      exact .attachSendLate hk ha hw hd.2 hs
    · obtain ⟨a', session, hs, rfl⟩ := attachStep_eq_some h
      exact .attachSendLost hk ha hw hs
  | attachRecv r =>
    obtain ⟨k, hk, h⟩ := Option.bind_eq_some_iff.mp h
    obtain ⟨a, ha, h⟩ := Option.bind_eq_some_iff.mp h
    split at h
    · cases h
    · rename_i rest hq
      split_ifs at h with hp
      cases h
      exact .attachPong hk ha hq hp
    · rename_i m rest hq
      obtain ⟨a', session, hs, rfl⟩ := attachStep_eq_some h
      exact .attachRecv hk ha hq hs
  | attachDatagram r m =>
    obtain ⟨k, hk, h⟩ := Option.bind_eq_some_iff.mp h
    obtain ⟨a, ha, h⟩ := Option.bind_eq_some_iff.mp h
    split_ifs at h with hm
    obtain ⟨a', session, hs, rfl⟩ := attachStep_eq_some h
    exact .attachDatagram hk ha hm hs
  | task e =>
    simp only [step] at h
    split_ifs at h with hg
    obtain ⟨session, hs, rfl⟩ := Option.map_eq_some_iff.mp h
    exact .task hg hs
  | unregister => cases h; exact .unregister
  | abort => cases h; exact .abort
  | handover => cases h; exact .handover

/-! ## Connections by reference -/

/-- Every connection there ever was. -/
def conns (s : Sys) : List Conn := s.live :: s.stale

theorem mem_conns_of_conn? {s : Sys} {r : Ref} {k : Conn} (h : s.conn? r = some k) :
    k ∈ s.conns := by
  cases r with
  | live => cases h; exact List.mem_cons_self ..
  | stale i => exact List.mem_cons_of_mem _ (List.mem_of_getElem? h)

/-- Replacing one connection leaves the others as they are. -/
theorem mem_conns_setConn {s : Sys} {r : Ref} {k k' : Conn} (h : k' ∈ (s.setConn r k).conns) :
    k' = k ∨ k' ∈ s.conns := by
  cases r with
  | live =>
    rcases List.mem_cons.mp h with rfl | h
    · exact .inl rfl
    · exact .inr (List.mem_cons_of_mem _ h)
  | stale i =>
    rcases List.mem_cons.mp h with rfl | h
    · exact .inr (List.mem_cons_self ..)
    · exact (List.mem_or_eq_of_mem_set h).symm.imp_right (List.mem_cons_of_mem _)

@[simp] theorem setConn_client (s : Sys) (r : Ref) (k : Conn) :
    (s.setConn r k).client = s.client := by
  cases r <;> rfl

@[simp] theorem setConn_session (s : Sys) (r : Ref) (k : Conn) :
    (s.setConn r k).session = s.session := by
  cases r <;> rfl

@[simp] theorem withAttach_client (s : Sys) (r : Ref) (k : Conn) (a : Attach) (session : Session) :
    (s.withAttach r k a session).client = s.client := by
  cases r <;> rfl

@[simp] theorem withAttach_session (s : Sys) (r : Ref) (k : Conn) (a : Attach)
    (session : Session) : (s.withAttach r k a session).session = session := by
  cases r <;> rfl

end Sys

/-! ## Where runs start -/

/-- `run_exec` while its Exec request is on the way. -/
def Client.start (tokenSource : TokenSource) : Client :=
  { tokenSource := tokenSource, stdinOpen := true, sentStdin := [], clientSeq := 0
    lastServerSeq := 0, resumeToken := none, pc := .connecting
    trace := ⟨[], [], 0, [], [], 0, none⟩ }

/-- The Exec request was accepted on a first connection. -/
def Sys.start (token : String) (tokenSource : TokenSource) (agent quic : Bool) (task : Task) : Sys where
  token := token
  client := .start tokenSource
  session := .start true agent task
  live := { Conn.open_ quic 0 with attach := some (.start token 0) }
  stale := []

/-- The runs of a resumable exec over connections of the given capacity. -/
def Sys.machine (cap : Capacity) : Machine Sys Label where
  init s := ∃ token tokenSource agent quic stdin stdout stderr exit pgid,
    s = .start token tokenSource agent quic (.start stdin stdout stderr exit pgid)
  step := Sys.step cap

end HerdrEternal
