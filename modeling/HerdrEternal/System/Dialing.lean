import HerdrEternal.Client.Dials
import HerdrEternal.Server.Holding
import HerdrEternal.System.Resume

/-!
# One client and its handshakes

`connect_and_start` of a client, and the handlers that serve its connections. The daemon has other
clients, sessions and a handover to deal with at the same time.

**State.** `Dialing` is the client, the daemon, and what is in flight on the client's connections.
A connection the client has given up stays: what was sent on it may still be read, and a handler may
still be started for it. `dial` is where the client is in `connect_and_start`, and `started` lists
the sessions the daemon started for it, with their commands. Once a connection relays, its messages
are left open: the client may be given any frame, and `attach` any event.
-/

namespace HerdrEternal

/-! ## Connections in their handshake -/

/-- What a client sends before it relays. -/
inductive Asked where
  | hello (token : String)
  | request (r : ExecRequest Nat)
  deriving DecidableEq

/-- What a handler sends up to the answer to the request. -/
inductive Reply where
  | welcome
  | started (token : Option String)
  | denied (reason : String)
  deriving DecidableEq

structure Link where
  /-- The handler the daemon runs for it, once it is accepted. -/
  handler : Option Nat
  toServer : List Asked
  toClient : List Reply
  deriving DecidableEq

/-- Where `connect_and_start` is suspended, with the connection it has. -/
inductive Dial where
  | connect
  | hello (k : Nat)
  | request (k : Nat)
  | welcome (k : Nat)
  | reply (k : Nat)
  deriving DecidableEq

structure Dialing where
  daemon : Daemon
  client : Client
  command : String
  forwardAgent : Bool
  dial : Dial
  links : List Link
  /-- The sessions started for the client's requests. -/
  started : List (Nat × String)
  deriving DecidableEq

inductive DialLabel where
  /-- A step of `run_exec` outside `connect_and_start`, or the failure of `connect_and_start`. -/
  | client (quic : Bool) (e : ClientEvent)
  | dialed
  | helloSent (token : String)
  | requestSent
  | welcomed
  | replied
  | accepted (k : Nat) (quic : Bool)
  | server (l : DaemonLabel)
  deriving DecidableEq

/-- The message of an answer to the request. -/
def Reply.answer? : Reply → Option Msg
  | .welcome => none
  | .started token => some (.started token)
  | .denied reason => some (.denied reason)

namespace Link

def opened : Link := ⟨none, [], []⟩

def ask (l : Link) (m : Asked) : Link := { l with toServer := l.toServer ++ [m] }

def answer (l : Link) (r : Reply) : Link := { l with toClient := l.toClient ++ [r] }

/-- The handler takes the next message, which has to be `m`. -/
def take (l : Link) (m : Asked) : Option Link :=
  match l.toServer with
  | m' :: rest => if m' = m then some { l with toServer := rest } else none
  | [] => none

/-- What a step of its handler does to a connection. -/
def exchange (l : Link) (d : Daemon) (h : Handler) : HandlerEvent → Option Link
  | .hello token => l.take (.hello token)
  | .request r _ => l.take (.request r)
  | .welcomeSent => some (l.answer .welcome)
  | .denySent true =>
    match h.pc with
    | .denying _ reason => some (l.answer (.denied reason))
    | _ => none
  | .serve .sent =>
    match h.pc with
    | .attached id a =>
      -- What `attach` sends after `Started` is left open.
      match a.pc, d.sessions[id]?.bind (a.sending ·.session) with
      | .sendStarted, some (.msg (.started token)) => some (l.answer (.started token))
      | _, _ => some l
    | _ => none
  | _ => some l

end Link

/-- The session that a step of a handler starts. -/
def HandlerEvent.starts (d : Daemon) : HandlerEvent → List (Nat × String)
  | .request (.exec command _ _) (some _) => [(d.sessions.length, command)]
  | _ => []

namespace Dialing

/-- The request for a connection: the command, or its session once there is a token. -/
def request (x : Dialing) : ExecRequest Nat :=
  match x.client.resumeToken with
  | some token => .resume token x.client.lastServerSeq
  | none => .exec x.command true x.forwardAgent

def setLink (x : Dialing) (k : Nat) (l : Link) : Dialing := { x with links := x.links.set k l }

/-- The connection that a handler serves, if it is one of the client's. -/
def linkOf (x : Dialing) (i : Nat) : Option Nat := x.links.findIdx? (·.handler = some i)

/-- A step of a handler. One that serves the client reads and writes its connection. -/
def handlerStep (timeout : Nat) (x : Dialing) (i : Nat) (e : HandlerEvent) : Option Dialing :=
  match x.linkOf i with
  | none => (x.daemon.step timeout (.handler i e)).map ({ x with daemon := · })
  | some k =>
    x.links[k]?.bind fun l => x.daemon.handlers[i]?.bind fun h =>
      (l.exchange x.daemon h e).bind fun l' =>
        (x.daemon.step timeout (.handler i e)).map fun d =>
          { x.setLink k l' with daemon := d, started := x.started ++ e.starts x.daemon }

/-- The client's failures in `connect_and_start`. Its answer comes as `replied`. -/
def clientMay (x : Dialing) (e : ClientEvent) : Bool :=
  match x.client.pc, e with
  | .connecting, .connectFailed _ => true
  | .connecting, _ => false
  | _, _ => true

def step (timeout : Nat) (x : Dialing) : DialLabel → Option Dialing
  | .client quic e =>
    if x.clientMay e then
      (x.client.step quic e).map fun c => { x with client := c, dial := .connect }
    else none
  | .dialed =>
    if x.client.pc = .connecting ∧ x.dial = .connect then
      some { x with dial := .hello x.links.length, links := x.links ++ [.opened] }
    else none
  | .helloSent token =>
    match x.client.pc, x.dial with
    | .connecting, .hello k => x.links[k]?.map fun l =>
      { x.setLink k (l.ask (.hello token)) with dial := .request k }
    | _, _ => none
  | .requestSent =>
    match x.client.pc, x.dial with
    | .connecting, .request k => x.links[k]?.map fun l =>
      { x.setLink k (l.ask (.request x.request)) with dial := .welcome k }
    | _, _ => none
  | .welcomed =>
    match x.client.pc, x.dial with
    | .connecting, .welcome k => x.links[k]?.bind fun l =>
      match l.toClient with
      | .welcome :: rest =>
        some { x.setLink k { l with toClient := rest } with dial := .reply k }
      | _ => none
    | _, _ => none
  | .replied =>
    match x.client.pc, x.dial with
    | .connecting, .reply k => x.links[k]?.bind fun l =>
      match l.toClient with
      | r :: rest => r.answer?.bind fun m => (x.client.step false (.frame m)).map fun c =>
        { x.setLink k { l with toClient := rest } with client := c, dial := .connect }
      | [] => none
    | _, _ => none
  | .accepted k quic => x.links[k]?.bind fun l =>
    if l.handler = none then
      (x.daemon.step timeout (.accept quic)).map fun d =>
        { x.setLink k { l with handler := some x.daemon.handlers.length } with daemon := d }
    else none
  | .server (.handler i e) => x.handlerStep timeout i e
  | .server l => (x.daemon.step timeout l).map ({ x with daemon := · })

def start (d : Daemon) (tokenSource : TokenSource) (command : String) (forwardAgent : Bool) :
    Dialing :=
  ⟨d, { Client.start tokenSource with pc := .authenticating }, command, forwardAgent, .connect,
    [], []⟩

/-- A client that starts while the daemon is in any state. -/
def machine (timeout : Nat) : Machine Dialing DialLabel where
  init x := ∃ d tokenSource command forwardAgent, (daemonMachine timeout).Reachable d ∧
    x = .start d tokenSource command forwardAgent
  step := step timeout

end Dialing

/-! ## What a step can do -/

def Asked.isExec : Asked → Bool
  | .request (.exec ..) => true
  | _ => false

namespace Link

variable {l l' : Link} {d : Daemon} {h : Handler} {e : HandlerEvent}

/-- The Exec requests on the way to the server. -/
def execs (l : Link) : Nat := l.toServer.countP (·.isExec)

theorem of_take {m : Asked} (hs : l.take m = some l') :
    ∃ rest, l.toServer = m :: rest ∧ l' = { l with toServer := rest } := by
  unfold take at hs
  split at hs
  · rename_i m' rest heq
    split_ifs at hs with hm
    cases hs
    exact ⟨rest, hm ▸ heq, rfl⟩
  · cases hs

/-- What a handler's step can do to its connection. -/
structure Exchanged (l : Link) (d : Daemon) (h : Handler) (e : HandlerEvent) (l' : Link) :
    Prop where
  handler : l'.handler = l.handler
  execs : l'.execs + (e.starts d).length ≤ l.execs
  toServer : ∀ m ∈ l'.toServer, m ∈ l.toServer
  asked : ∀ r spawned, e = .request r spawned → .request r ∈ l.toServer
  told : ∀ token, .started token ∈ l'.toClient → .started token ∈ l.toClient ∨
    ∃ id a, h.pc = .attached id a ∧ e = .serve .sent ∧ (token = none ∨ token = some a.token)

theorem Exchanged.answer (r : Reply) (he : ∀ q spawned, e ≠ .request q spawned)
    (hr : ∀ token, r = .started token →
      ∃ id a, h.pc = .attached id a ∧ e = .serve .sent ∧ (token = none ∨ token = some a.token)) :
    Exchanged l d h e (l.answer r) where
  handler := rfl
  execs := by
    cases e with
    | request q spawned => exact absurd rfl (he q spawned)
    | _ => exact le_rfl
  toServer _ hm := hm
  asked q spawned heq := absurd heq (he q spawned)
  told token hm := by
    rcases List.mem_append.mp hm with hm | hm
    · exact .inl hm
    · exact .inr (hr token (List.mem_singleton.mp hm).symm)

theorem Exchanged.same (he : ∀ q spawned, e ≠ .request q spawned) : Exchanged l d h e l where
  handler := rfl
  execs := by
    cases e with
    | request q spawned => exact absurd rfl (he q spawned)
    | _ => exact le_rfl
  toServer _ hm := hm
  asked q spawned heq := absurd heq (he q spawned)
  told _ hm := .inl hm

theorem Exchanged.of_exchange (hs : l.exchange d h e = some l') : Exchanged l d h e l' := by
  unfold exchange at hs
  split at hs
  · obtain ⟨rest, hrest, rfl⟩ := of_take hs
    refine ⟨rfl, ?_, fun m hm => ?_, fun _ _ heq => (by cases heq), fun _ hm => .inl hm⟩
    · simp [Link.execs, hrest, Asked.isExec, HandlerEvent.starts]
    · rw [hrest]
      exact List.mem_cons_of_mem _ hm
  · rename_i r spawned
    obtain ⟨rest, hrest, rfl⟩ := of_take hs
    refine ⟨rfl, ?_, fun m hm => ?_, fun q sp heq => ?_, fun _ hm => .inl hm⟩
    · cases r with
      | exec command resumable forwardAgent =>
        cases spawned <;> simp [Link.execs, hrest, Asked.isExec, HandlerEvent.starts]
      | _ => simp [Link.execs, hrest, Asked.isExec, HandlerEvent.starts]
    · rw [hrest]
      exact List.mem_cons_of_mem _ hm
    · cases heq
      rw [hrest]
      exact List.mem_cons_self
  · cases hs
    exact .answer _ (by simp) (by simp)
  · split at hs
    · cases hs
      exact .answer _ (by simp) (by simp)
    · cases hs
  · split at hs
    · rename_i id a hp
      split at hs
      · rename_i token hstarted hsend
        cases hs
        refine .answer _ (by simp) fun t ht => ⟨id, a, hp, rfl, ?_⟩
        cases ht
        obtain ⟨entry, -, hsend⟩ := Option.bind_eq_some_iff.mp hsend
        exact Attach.token_of_started hstarted hsend
      · cases hs
        exact .same (by simp)
    · cases hs
  · cases hs
    exact .same (by simp_all)

end Link

namespace Dialing

variable {timeout : Nat} {x x' : Dialing}

/-- Every step, with the guard it passed. -/
inductive Step (timeout : Nat) (x : Dialing) : DialLabel → Dialing → Prop
  | client {quic : Bool} {e : ClientEvent} {c : Client} (hs : Client.Step quic x.client e c)
      (hno : x.client.pc = .connecting → ∃ err, e = .connectFailed err) :
      Step timeout x (.client quic e) { x with client := c, dial := .connect }
  | dialed (hp : x.client.pc = .connecting) (hd : x.dial = .connect) :
      Step timeout x .dialed
        { x with dial := .hello x.links.length, links := x.links ++ [.opened] }
  | helloSent {token : String} {k : Nat} {l : Link} (hp : x.client.pc = .connecting)
      (hd : x.dial = .hello k) (hl : x.links[k]? = some l) :
      Step timeout x (.helloSent token)
        { x.setLink k (l.ask (.hello token)) with dial := .request k }
  | requestSent {k : Nat} {l : Link} (hp : x.client.pc = .connecting) (hd : x.dial = .request k)
      (hl : x.links[k]? = some l) :
      Step timeout x .requestSent
        { x.setLink k (l.ask (.request x.request)) with dial := .welcome k }
  | welcomed {k : Nat} {l : Link} {rest : List Reply} (hp : x.client.pc = .connecting)
      (hl : x.links[k]? = some l) (hto : l.toClient = .welcome :: rest) :
      Step timeout x .welcomed { x.setLink k { l with toClient := rest } with dial := .reply k }
  | replied {k : Nat} {l : Link} {r : Reply} {rest : List Reply} {m : Msg}
      (hl : x.links[k]? = some l) (hto : l.toClient = r :: rest) (hr : r.answer? = some m) :
      Step timeout x .replied
        { x.setLink k { l with toClient := rest } with
          client := x.client.onReply m, dial := .connect }
  | accepted {k : Nat} {quic : Bool} {l : Link} {d : Daemon} (hl : x.links[k]? = some l)
      (hs : Daemon.Step timeout x.daemon (.accept quic) d) :
      Step timeout x (.accepted k quic)
        { x.setLink k { l with handler := some x.daemon.handlers.length } with daemon := d }
  | handler {i k : Nat} {e : HandlerEvent} {l l' : Link} {h : Handler} {d : Daemon}
      (hl : x.links[k]? = some l) (hi : l.handler = some i)
      (hh : x.daemon.handlers[i]? = some h) (hx : l.Exchanged x.daemon h e l')
      (hs : x.daemon.step timeout (.handler i e) = some d) :
      Step timeout x (.server (.handler i e))
        { x.setLink k l' with daemon := d, started := x.started ++ e.starts x.daemon }
  | server {label : DaemonLabel} {d : Daemon} (hs : Daemon.Step timeout x.daemon label d)
      (hother : ∀ i e, label = .handler i e → ∀ l ∈ x.links, l.handler ≠ some i) :
      Step timeout x (.server label) { x with daemon := d }

theorem Step.of_handlerStep {i : Nat} {e : HandlerEvent}
    (hs : x.handlerStep timeout i e = some x') : Step timeout x (.server (.handler i e)) x' := by
  unfold handlerStep at hs
  split at hs
  · rename_i hno
    obtain ⟨d, hd, rfl⟩ := Option.map_eq_some_iff.mp hs
    refine .server (Daemon.Step.of_step hd).2 fun j e' heq l hl => ?_
    cases heq
    simpa using List.findIdx?_eq_none_iff.mp hno l hl
  · rename_i k hk
    obtain ⟨l, hl, hs⟩ := Option.bind_eq_some_iff.mp hs
    obtain ⟨h, hh, hs⟩ := Option.bind_eq_some_iff.mp hs
    obtain ⟨l', hl', hs⟩ := Option.bind_eq_some_iff.mp hs
    obtain ⟨d, hd, rfl⟩ := Option.map_eq_some_iff.mp hs
    obtain ⟨hlt, hi, -⟩ := List.findIdx?_eq_some_iff_getElem.mp hk
    rw [List.getElem?_eq_getElem hlt] at hl
    cases hl
    exact .handler (List.getElem?_eq_getElem hlt) (by simpa using hi) hh (.of_exchange hl') hd

theorem Step.of_step {label : DialLabel} (hs : x.step timeout label = some x') :
    Step timeout x label x' := by
  cases label with
  | client quic e =>
    simp only [step] at hs
    split_ifs at hs with hmay
    obtain ⟨c, hc, rfl⟩ := Option.map_eq_some_iff.mp hs
    refine .client (Client.Step.of_step hc) fun hp => ?_
    unfold clientMay at hmay
    rw [hp] at hmay
    split at hmay
    · exact ⟨_, rfl⟩
    · cases hmay
    · exact absurd rfl ‹_›
  | dialed =>
    simp only [step] at hs
    split_ifs at hs with hg
    cases hs
    exact .dialed hg.1 hg.2
  | helloSent token =>
    simp only [step] at hs
    split at hs
    · obtain ⟨l, hl, rfl⟩ := Option.map_eq_some_iff.mp hs
      exact .helloSent ‹_› ‹_› hl
    · cases hs
  | requestSent =>
    simp only [step] at hs
    split at hs
    · obtain ⟨l, hl, rfl⟩ := Option.map_eq_some_iff.mp hs
      exact .requestSent ‹_› ‹_› hl
    · cases hs
  | welcomed =>
    simp only [step] at hs
    split at hs
    · obtain ⟨l, hl, hs⟩ := Option.bind_eq_some_iff.mp hs
      split at hs
      · cases hs
        exact .welcomed ‹_› hl ‹_›
      · cases hs
    · cases hs
  | replied =>
    simp only [step] at hs
    split at hs
    · rename_i hp hd
      obtain ⟨l, hl, hs⟩ := Option.bind_eq_some_iff.mp hs
      split at hs
      · obtain ⟨m, hm, hs⟩ := Option.bind_eq_some_iff.mp hs
        obtain ⟨c, hc, rfl⟩ := Option.map_eq_some_iff.mp hs
        rw [Client.step_answer hp] at hc
        cases hc
        exact .replied hl ‹_› hm
      · cases hs
    · cases hs
  | accepted k quic =>
    simp only [step] at hs
    obtain ⟨l, hl, hs⟩ := Option.bind_eq_some_iff.mp hs
    split_ifs at hs
    obtain ⟨d, hd, rfl⟩ := Option.map_eq_some_iff.mp hs
    exact .accepted hl (Daemon.Step.of_step hd).2
  | server label =>
    cases label with
    | handler i e => exact .of_handlerStep hs
    | _ =>
      obtain ⟨d, hd, rfl⟩ := Option.map_eq_some_iff.mp hs
      exact .server (Daemon.Step.of_step hd).2 (by simp)

end Dialing

end HerdrEternal
