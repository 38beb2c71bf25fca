import HerdrEternal.Server.Handover

/-!
# The daemon: registry, handlers, expiry and handover

One daemon runs a handler for each connection it accepted (`handle_connection`), one task for each
session, a sweep that kills sessions whose client has been gone for too long (`expire_sessions`),
and, once it is told to stop, `handover_sessions`. They share the registry of sessions, whose
operations lock it one at a time. So every single look at the registry is a step of its own here,
and between two steps of one task any other may run.

**State.** `sessions` holds every session the daemon ever had; those whose `registered` is set are
in the registry. A handler, the sweep and the handover refer to a session by its index, as the
source does by an `Arc`. Handlers go through the handshake, find or start their session, take an
`AttachGuard` and then run `attach`.

**History.** `announced` and `gone` of an entry, and `snapshot` of the handover, record what
happened. No step reads them.
-/

namespace HerdrEternal

/-! ## State -/

/-- Why a session left the registry. -/
inductive Gone where
  | exitAcked
  | aborted
  | expired
  | handedOver
  deriving DecidableEq

/-- A session with the part of it that drives its expiry. -/
structure Entry where
  token : String
  session : Session
  /-- Number of currently attached connections. -/
  attached : Nat
  /-- When the last connection detached; `none` while a client is attached. -/
  detachedAt : Option Nat
  /-- `Started` went out with the token. -/
  announced : Bool
  gone : Option Gone
  deriving DecidableEq

/-- Where a handler is suspended. -/
inductive HandlerPc where
  | hello
  | verifying (token : String)
  | welcome
  | request
  /-- The session is found or started; the `AttachGuard` is not taken yet. -/
  | found (id lastSeqSeen : Nat)
  | foundAgent (id : Nat)
  | attached (id : Nat) (a : Attach)
  /-- In `handle_agent_channel`. -/
  | agent (id : Nat)
  /-- In `deny`; `owner` is the session the token was given to, if there is one. -/
  | denying (owner : Option Nat) (reason : String)
  | denied (owner : Option Nat) (reason : String)
  | closed
  deriving DecidableEq

structure Handler where
  quic : Bool
  pc : HandlerPc
  deriving DecidableEq

/-- Where `handover_sessions` is suspended. -/
inductive HandoverPc where
  | idle
  /-- At the top of the loop, with these sessions still to come. -/
  | next (rest : List Nat)
  | waiting (id : Nat) (rest : List Nat)
  | done (written : Bool)
  deriving DecidableEq

structure HandoverRun where
  pc : HandoverPc
  snapshot : List Nat
  records : List (String × SessionRecord)
  fds : List (String × Fd)
  deriving DecidableEq

structure Daemon where
  now : Nat
  sessions : List Entry
  handlers : List Handler
  /-- What `expire_sessions` collected and did not abort yet. -/
  sweep : List Nat
  /-- The first of them is out of the registry already. -/
  sweepRemoved : Bool
  handover : HandoverRun
  /-- The process has ended. -/
  exited : Bool
  deriving DecidableEq

/-- What `start_session` and `new_resume_token` give. -/
structure Spawned where
  token : String
  stdin : Fd
  stdout : Fd
  stderr : Fd
  exit : Fd
  pgid : Int32
  deriving DecidableEq

inductive HandlerEvent where
  | hello (token : String)
  | verified (ok : Bool)
  | welcomeSent
  /-- The channel ended or failed during the handshake. -/
  | failed
  /-- For an `Exec`, `none` if the command or the agent hub could not be started. -/
  | request (r : ExecRequest Nat) (spawned : Option Spawned)
  | attach
  | serve (e : AttachEvent)
  /-- The `AttachGuard` is dropped as `attach` or `handle_agent_channel` returns. -/
  | drop
  | denySent (ok : Bool)
  deriving DecidableEq

inductive DaemonLabel where
  | wait (time : Nat)
  | accept (quic : Bool)
  | handler (i : Nat) (e : HandlerEvent)
  | task (id : Nat) (e : TaskEvent)
  | sweepCollect (expired : List Nat)
  | sweepRemove
  | sweepAbort
  | handoverEntries (snapshot : List Nat)
  | handoverNext
  | handoverReply
  | handoverTimeout
  | handoverWrite (ok : Bool)
  | exit
  deriving DecidableEq

namespace Entry

/-- `AttachGuard::new`. -/
def attach (e : Entry) : Entry := { e with attached := e.attached + 1, detachedAt := none }

/-- `AttachGuard::drop`. -/
def drop (e : Entry) (now : Nat) : Entry :=
  { e with
    attached := e.attached - 1
    detachedAt := if e.attached = 1 then some now else e.detachedAt }

/-- Its token is taken out of the registry. -/
def remove (e : Entry) (why : Gone) : Entry :=
  { e with session := e.session.unregister, gone := e.gone <|> some why }

def enqueue (e : Entry) (input : SessionInput) : Entry :=
  { e with session := e.session.enqueue input }

/-- A step of `attach`, which may have taken the token out of the registry. -/
def serve (e : Entry) (a : Attach) (event : AttachEvent) (s : Session) : Entry :=
  let why : Gone := match event with
    | .frame _ => .exitAcked
    | _ => .aborted
  { e with
    session := s
    announced := e.announced || (s.resumable && a.pc = .sendStarted && event = .sent)
    gone := if e.session.registered && !s.registered then some why else e.gone }

/-- The filter of `SessionRegistry::expired`. -/
def expired (e : Entry) (now timeout : Nat) : Bool :=
  e.session.registered && e.detachedAt.any fun detached => timeout ≤ now - detached

def start (sp : Spawned) (resumable forwardAgent : Bool) (now : Nat) : Entry :=
  { token := sp.token
    session := .start resumable forwardAgent (.start sp.stdin sp.stdout sp.stderr sp.exit sp.pgid)
    attached := 0, detachedAt := some now, announced := false, gone := none }

end Entry

/-- The session a handler holds. -/
def HandlerPc.session? : HandlerPc → Option Nat
  | .found id _ | .foundAgent id | .attached id _ | .agent id => some id
  | _ => none

/-- The session a handler is attached to: it holds an `AttachGuard`. -/
def HandlerPc.guard? : HandlerPc → Option Nat
  | .attached id _ | .agent id => some id
  | _ => none

/-- The sessions `handover_sessions` has not dealt with. -/
def HandoverPc.pending : HandoverPc → List Nat
  | .next rest => rest
  | .waiting id rest => id :: rest
  | _ => []

namespace Daemon

/-! ## Steps -/

def goTo (d : Daemon) (i : Nat) (h : Handler) (pc : HandlerPc) : Daemon :=
  { d with handlers := d.handlers.set i { h with pc := pc } }

def modify (d : Daemon) (id : Nat) (f : Entry → Entry) : Daemon :=
  { d with sessions := d.sessions.modify id f }

/-- `SessionRegistry::get`. -/
def lookup (d : Daemon) (token : String) : Option Nat :=
  d.sessions.findIdx? fun e => e.session.registered && e.token == token

/-- The session that was given a token, in the registry or not. -/
def owner (d : Daemon) (token : String) : Option Nat := d.sessions.findIdx? (·.token == token)

/-- The indices of the sessions with a property. -/
def indices (d : Daemon) (p : Entry → Bool) : List Nat :=
  (List.range d.sessions.length).filter fun id => d.sessions[id]?.any p

/-- Someone holds the session, and with it a sender of its input queue. -/
def held (d : Daemon) (id : Nat) : Bool :=
  d.sessions[id]?.any (·.session.registered) || d.handlers.any (·.pc.session? = some id) ||
    d.sweep.contains id || d.handover.pc.pending.contains id

/-- What `handle_connection` does with the request. -/
def onRequest (d : Daemon) (i : Nat) (h : Handler) (spawned : Option Spawned) :
    ExecRequest Nat → Option Daemon
  | .exec _ resumable forwardAgent =>
    match spawned with
    | none => some (d.goTo i h .closed)
    | some sp =>
      if (d.owner sp.token).isSome then none
      else
        some { d.goTo i h (.found d.sessions.length 0) with
          sessions := d.sessions ++ [.start sp resumable forwardAgent d.now] }
  | .resume token lastSeqSeen =>
    match d.lookup token with
    | some id => some (d.goTo i h (.found id lastSeqSeen))
    | none => some (d.goTo i h (.denying (d.owner token) "unknown resume token"))
  | .agentChannel token =>
    match d.lookup token with
    | some id =>
      if d.sessions[id]?.any (·.session.agent) then some (d.goTo i h (.foundAgent id))
      else some (d.goTo i h (.denying (some id) "agent forwarding not enabled"))
    | none => some (d.goTo i h (.denying (d.owner token) "unknown resume token"))

/-- One step of a handler. -/
def handlerStep (d : Daemon) (i : Nat) (h : Handler) (e : HandlerEvent) : Option Daemon :=
  match h.pc, e with
  | .hello, .hello token => some (d.goTo i h (.verifying token))
  | .verifying _, .verified ok => some (d.goTo i h (if ok then .welcome else .closed))
  | .welcome, .welcomeSent => some (d.goTo i h .request)
  | .hello, .failed | .welcome, .failed | .request, .failed => some (d.goTo i h .closed)
  | .request, .request r spawned => d.onRequest i h spawned r
  | .found id lastSeqSeen, .attach =>
    d.sessions[id]?.map fun entry =>
      (d.goTo i h (.attached id (.start entry.token lastSeqSeen))).modify id Entry.attach
  | .foundAgent id, .attach => some ((d.goTo i h (.agent id)).modify id Entry.attach)
  | .attached id a, .serve event =>
    d.sessions[id]?.bind fun entry => (a.step h.quic entry.session event).map fun (a', s) =>
      (d.goTo i h (.attached id a')).modify id (·.serve a event s)
  | .attached id a, .drop =>
    if a.pc = .returned then some ((d.goTo i h .closed).modify id (·.drop d.now)) else none
  | .agent id, .drop => some ((d.goTo i h .closed).modify id (·.drop d.now))
  | .denying owner reason, .denySent ok =>
    some (d.goTo i h (if ok then .denied owner reason else .closed))
  | _, _ => none

/-- The loop of `handover_sessions` takes the next session: it is skipped if it is not resumable
or its task has ended, and asked otherwise. -/
def handoverNext (d : Daemon) : Option Daemon :=
  match d.handover.pc with
  | .next (id :: rest) =>
    d.sessions[id]?.map fun e =>
      if !e.session.resumable || e.session.ended then
        { d with handover := { d.handover with pc := .next rest } }
      else { d.modify id (·.enqueue .handover) with
        handover := { d.handover with pc := .waiting id rest } }
  | _ => none

/-- The reply has come: the session leaves the registry for the records. -/
def handoverReply (d : Daemon) : Option Daemon :=
  match d.handover.pc with
  | .waiting id rest =>
    d.sessions[id]?.bind fun e => e.session.replied.map fun r =>
      { d.modify id (·.remove .handedOver) with
        handover :=
          { d.handover with
            pc := .next rest
            records := d.handover.records ++
              [(e.token, { r.state with forwardAgent := e.session.agent })]
            fds := d.handover.fds ++ r.fds.map fun (role, fd) => (fdName e.token role, fd) } }
  | _ => none

/-- One step of the daemon. A process that has ended takes none. -/
def step (timeout : Nat) (d : Daemon) (l : DaemonLabel) : Option Daemon :=
  if d.exited then none
  else match l with
  | .wait time => some { d with now := d.now + time }
  | .accept quic =>
    -- `serve` stops accepting before it starts to shut down.
    if d.handover.pc = .idle then some { d with handlers := d.handlers ++ [⟨quic, .hello⟩] }
    else none
  | .handler i e => d.handlers[i]?.bind fun h => d.handlerStep i h e
  | .task id e =>
    if e = .recvNone ∧ d.held id = true then none
    else d.sessions[id]?.bind fun entry => (entry.session.taskStep e).map fun s =>
      d.modify id ({ · with session := s })
  | .sweepCollect expired =>
    if d.sweep = [] ∧ expired.isPerm (d.indices (·.expired d.now timeout)) = true then
      some { d with sweep := expired, sweepRemoved := false }
    else none
  | .sweepRemove =>
    match d.sweep with
    | id :: _ =>
      if d.sweepRemoved then none
      else some { d.modify id (·.remove .expired) with sweepRemoved := true }
    | [] => none
  | .sweepAbort =>
    match d.sweep with
    | id :: rest =>
      if d.sweepRemoved then
        some { d.modify id (·.enqueue .abort) with sweep := rest, sweepRemoved := false }
      else none
    | [] => none
  | .handoverEntries snapshot =>
    if d.handover.pc = .idle ∧ snapshot.isPerm (d.indices (·.session.registered)) = true then
      some { d with handover := { d.handover with pc := .next snapshot, snapshot := snapshot } }
    else none
  | .handoverNext => d.handoverNext
  | .handoverReply => d.handoverReply
  | .handoverTimeout =>
    match d.handover.pc with
    | .waiting _ rest => some { d with handover := { d.handover with pc := .next rest } }
    | _ => none
  | .handoverWrite ok =>
    if d.handover.pc = .next [] then
      some { d with handover := { d.handover with pc := .done ok } }
    else none
  | .exit =>
    match d.handover.pc with
    | .done _ => some { d with exited := true }
    | _ => none

/-- A daemon that has just started, with the sessions it restored. -/
def start (restored : List Entry) : Daemon :=
  ⟨0, restored, [], [], false, ⟨.idle, [], [], []⟩, false⟩

end Daemon

/-- A session as `restore_sessions` leaves it. Its client knows the token from an earlier daemon. -/
structure Entry.Restored (e : Entry) : Prop where
  inbound : e.session.inbound = []
  phase : e.session.task.phase = .select
  resumable : e.session.resumable = true
  registered : e.session.registered = true
  attached : e.attached = 0
  detachedAt : e.detachedAt = some 0
  announced : e.announced = true
  gone : e.gone = none

/-- A restored session whose client has not come back yet. -/
def Entry.away (token : String) (agent : Bool) : Entry :=
  { token := token
    session := .start true agent (.start (.pipe 0) (.pipe 1) (.pipe 2) (.pipe 3) 7)
    attached := 0, detachedAt := some 0, announced := true, gone := none }

theorem Entry.restored_away (token : String) (agent : Bool) : (Entry.away token agent).Restored :=
  ⟨rfl, rfl, rfl, rfl, rfl, rfl, rfl, rfl⟩

/-- The handshake of a connection up to its request. -/
def Daemon.greets (i : Nat) : List DaemonLabel :=
  [.accept false, .handler i (.hello "secret"), .handler i (.verified true),
   .handler i .welcomeSent]

/-- The daemon with a session timeout. -/
def daemonMachine (timeout : Nat) : Machine Daemon DaemonLabel where
  init d := ∃ restored : List Entry, (restored.map (·.token)).Nodup ∧
    (∀ e ∈ restored, e.Restored) ∧ d = .start restored
  step := Daemon.step timeout

/-! ## What a step can do -/

/-- The handshake before the request, and the end of a handler. -/
def HandlerPc.plain : HandlerPc → Bool
  | .hello | .verifying _ | .welcome | .request | .closed => true
  | _ => false

namespace Daemon

variable {timeout : Nat} {d d' : Daemon}

/-- Every step of a handler, by what it does to the registry and to its session. -/
inductive HandlerStep (d : Daemon) (i : Nat) (h : Handler) : HandlerEvent → Daemon → Prop
  | handshake {e : HandlerEvent} {pc : HandlerPc} (hg : h.pc.guard? = none)
      (hpc : pc.plain = true) (he : e ≠ .drop) : HandlerStep d i h e (d.goTo i h pc)
  | exec {command : String} {resumable forwardAgent : Bool} {sp : Spawned} (hp : h.pc = .request)
      (hfresh : d.owner sp.token = none) :
      HandlerStep d i h (.request (.exec command resumable forwardAgent) (some sp))
        { d.goTo i h (.found d.sessions.length 0) with
          sessions := d.sessions ++ [.start sp resumable forwardAgent d.now] }
  | found {r : ExecRequest Nat} {token : String} {spawned : Option Spawned} {id : Nat}
      {pc : HandlerPc} (hp : h.pc = .request) (hfind : d.lookup token = some id)
      (hpc : pc.session? = some id) (hg : pc.guard? = none) :
      HandlerStep d i h (.request r spawned) (d.goTo i h pc)
  | refused {r : ExecRequest Nat} {token : String} {spawned : Option Spawned}
      (hp : h.pc = .request) (hr : (∃ n, r = .resume token n) ∨ r = .agentChannel token)
      (hfind : d.lookup token = none) :
      HandlerStep d i h (.request r spawned)
        (d.goTo i h (.denying (d.owner token) "unknown resume token"))
  | noAgent {token : String} {spawned : Option Spawned} {id : Nat} (hp : h.pc = .request)
      (hfind : d.lookup token = some id) (hno : d.sessions[id]?.any (·.session.agent) = false) :
      HandlerStep d i h (.request (.agentChannel token) spawned)
        (d.goTo i h (.denying (some id) "agent forwarding not enabled"))
  | attach {id : Nat} {pc : HandlerPc} (hfound : h.pc.session? = some id)
      (hno : h.pc.guard? = none) (hpc : pc.session? = some id) (hg : pc.guard? = some id) :
      HandlerStep d i h .attach ((d.goTo i h pc).modify id Entry.attach)
  | serve {id : Nat} {a a' : Attach} {entry : Entry} {event : AttachEvent} {s : Session}
      (hp : h.pc = .attached id a) (hget : d.sessions[id]? = some entry)
      (hstep : a.step h.quic entry.session event = some (a', s)) :
      HandlerStep d i h (.serve event)
        ((d.goTo i h (.attached id a')).modify id (·.serve a event s))
  | drop {id : Nat} (hg : h.pc.guard? = some id) :
      HandlerStep d i h .drop ((d.goTo i h .closed).modify id (·.drop d.now))
  | denied {owner : Option Nat} {reason : String} (hp : h.pc = .denying owner reason) :
      HandlerStep d i h (.denySent true) (d.goTo i h (.denied owner reason))

theorem HandlerStep.of_onRequest {i : Nat} {h : Handler} {r : ExecRequest Nat}
    {spawned : Option Spawned} (hp : h.pc = .request) (hs : d.onRequest i h spawned r = some d') :
    HandlerStep d i h (.request r spawned) d' := by
  have hg : h.pc.guard? = none := by rw [hp]; rfl
  cases r with
  | exec command resumable forwardAgent =>
    cases spawned with
    | none =>
      cases hs
      exact .handshake hg rfl (by simp)
    | some sp =>
      simp only [onRequest] at hs
      split_ifs at hs with hfresh
      cases hs
      exact .exec hp (by simpa using hfresh)
  | resume token lastSeqSeen =>
    simp only [onRequest] at hs
    split at hs
    · rename_i id hfind
      cases hs
      exact .found hp hfind rfl rfl
    · rename_i hfind
      cases hs
      exact .refused hp (.inl ⟨_, rfl⟩) hfind
  | agentChannel token =>
    simp only [onRequest] at hs
    split at hs
    · rename_i id hfind
      split_ifs at hs with hagent
      · cases hs
        exact .found hp hfind rfl rfl
      · cases hs
        exact .noAgent hp hfind (by simpa using hagent)
    · rename_i hfind
      cases hs
      exact .refused hp (.inr rfl) hfind

theorem HandlerStep.of_handlerStep {i : Nat} {h : Handler} {e : HandlerEvent}
    (hs : d.handlerStep i h e = some d') : HandlerStep d i h e d' := by
  obtain ⟨quic, pc⟩ := h
  unfold handlerStep at hs
  dsimp only at hs
  split at hs
  · cases hs
    exact .handshake rfl rfl (by simp)
  · cases hs
    exact .handshake rfl (by split_ifs <;> rfl) (by simp)
  · cases hs
    exact .handshake rfl rfl (by simp)
  · cases hs
    exact .handshake rfl rfl (by simp)
  · cases hs
    exact .handshake rfl rfl (by simp)
  · cases hs
    exact .handshake rfl rfl (by simp)
  · exact .of_onRequest rfl hs
  · obtain ⟨entry, -, rfl⟩ := Option.map_eq_some_iff.mp hs
    exact .attach rfl rfl rfl rfl
  · cases hs
    exact .attach rfl rfl rfl rfl
  · obtain ⟨entry, hget, hs⟩ := Option.bind_eq_some_iff.mp hs
    obtain ⟨⟨a', s⟩, hstep, rfl⟩ := Option.map_eq_some_iff.mp hs
    exact .serve rfl hget hstep
  · split_ifs at hs
    cases hs
    exact .drop rfl
  · cases hs
    exact .drop rfl
  · rename_i owner reason ok
    cases ok with
    | true =>
      cases hs
      exact .denied rfl
    | false =>
      cases hs
      exact .handshake rfl rfl (by simp)
  · cases hs

/-- Every step of the daemon, with the guard it passed. -/
inductive Step (timeout : Nat) (d : Daemon) : DaemonLabel → Daemon → Prop
  | wait {time : Nat} : Step timeout d (.wait time) { d with now := d.now + time }
  | accept {quic : Bool} (hp : d.handover.pc = .idle) :
      Step timeout d (.accept quic) { d with handlers := d.handlers ++ [⟨quic, .hello⟩] }
  | handler {i : Nat} {h : Handler} {e : HandlerEvent} {d' : Daemon}
      (hget : d.handlers[i]? = some h) (hs : HandlerStep d i h e d') :
      Step timeout d (.handler i e) d'
  | task {id : Nat} {e : TaskEvent} {entry : Entry} {s : Session}
      (hget : d.sessions[id]? = some entry) (hs : entry.session.taskStep e = some s) :
      Step timeout d (.task id e) (d.modify id ({ · with session := s }))
  | sweepCollect {expired : List Nat} (hno : d.sweep = [])
      (hperm : expired.Perm (d.indices (·.expired d.now timeout))) :
      Step timeout d (.sweepCollect expired) { d with sweep := expired, sweepRemoved := false }
  | sweepRemove {id : Nat} {rest : List Nat} (hsw : d.sweep = id :: rest) :
      Step timeout d .sweepRemove { d.modify id (·.remove .expired) with sweepRemoved := true }
  | sweepAbort {id : Nat} {rest : List Nat} (hsw : d.sweep = id :: rest) :
      Step timeout d .sweepAbort
        { d.modify id (·.enqueue .abort) with sweep := rest, sweepRemoved := false }
  | entries {snapshot : List Nat} (hp : d.handover.pc = .idle)
      (hperm : snapshot.Perm (d.indices (·.session.registered))) :
      Step timeout d (.handoverEntries snapshot)
        { d with handover := { d.handover with pc := .next snapshot, snapshot := snapshot } }
  | skip {id : Nat} {rest : List Nat} {e : Entry} (hp : d.handover.pc = .next (id :: rest))
      (hget : d.sessions[id]? = some e)
      (hskip : e.session.resumable = false ∨ e.session.ended = true) :
      Step timeout d .handoverNext { d with handover := { d.handover with pc := .next rest } }
  | ask {id : Nat} {rest : List Nat} (hp : d.handover.pc = .next (id :: rest)) :
      Step timeout d .handoverNext { d.modify id (·.enqueue .handover) with
        handover := { d.handover with pc := .waiting id rest } }
  | reply {id : Nat} {rest : List Nat} {e : Entry} {r : SessionHandover}
      {fds : List (String × Fd)} (hp : d.handover.pc = .waiting id rest)
      (hget : d.sessions[id]? = some e) :
      Step timeout d .handoverReply { d.modify id (·.remove .handedOver) with
        handover := { d.handover with
          pc := .next rest
          records := d.handover.records ++
            [(e.token, { r.state with forwardAgent := e.session.agent })]
          fds := fds } }
  | timedOut {id : Nat} {rest : List Nat} (hp : d.handover.pc = .waiting id rest) :
      Step timeout d .handoverTimeout { d with handover := { d.handover with pc := .next rest } }
  | write {ok : Bool} (hp : d.handover.pc = .next []) :
      Step timeout d (.handoverWrite ok) { d with handover := { d.handover with pc := .done ok } }
  | exit {ok : Bool} (hp : d.handover.pc = .done ok) : Step timeout d .exit { d with exited := true }

theorem Step.of_step {l : DaemonLabel} (hs : d.step timeout l = some d') :
    d.exited = false ∧ Step timeout d l d' := by
  unfold step at hs
  by_cases hex : d.exited = true
  · rw [if_pos hex] at hs
    cases hs
  rw [if_neg hex] at hs
  refine ⟨by simpa using hex, ?_⟩
  cases l with
  | wait time =>
    cases hs
    exact .wait
  | accept quic =>
    simp only at hs
    split_ifs at hs with hp
    cases hs
    exact .accept hp
  | handler i e =>
    obtain ⟨h, hget, hs⟩ := Option.bind_eq_some_iff.mp hs
    exact .handler hget (.of_handlerStep hs)
  | task id e =>
    simp only at hs
    split_ifs at hs
    obtain ⟨entry, hget, hs⟩ := Option.bind_eq_some_iff.mp hs
    obtain ⟨s, hstep, rfl⟩ := Option.map_eq_some_iff.mp hs
    exact .task hget hstep
  | sweepCollect expired =>
    simp only at hs
    split_ifs at hs with hg
    cases hs
    exact .sweepCollect hg.1 (List.isPerm_iff.mp hg.2)
  | sweepRemove =>
    simp only at hs
    split at hs
    · rename_i id rest hsw
      split_ifs at hs
      cases hs
      exact .sweepRemove hsw
    · cases hs
  | sweepAbort =>
    simp only at hs
    split at hs
    · rename_i id rest hsw
      split_ifs at hs
      cases hs
      exact .sweepAbort hsw
    · cases hs
  | handoverEntries snapshot =>
    simp only at hs
    split_ifs at hs with hg
    cases hs
    exact .entries hg.1 (List.isPerm_iff.mp hg.2)
  | handoverNext =>
    simp only [handoverNext] at hs
    split at hs
    · rename_i id rest hp
      obtain ⟨e, hget, rfl⟩ := Option.map_eq_some_iff.mp hs
      split_ifs with hskip
      · exact .skip hp hget (by simpa using hskip)
      · exact .ask hp
    · cases hs
  | handoverReply =>
    simp only [handoverReply] at hs
    split at hs
    · rename_i id rest hp
      obtain ⟨e, hget, hs⟩ := Option.bind_eq_some_iff.mp hs
      obtain ⟨r, -, rfl⟩ := Option.map_eq_some_iff.mp hs
      exact .reply hp hget
    · cases hs
  | handoverTimeout =>
    simp only at hs
    split at hs
    · cases hs
      exact .timedOut ‹_›
    · cases hs
  | handoverWrite ok =>
    simp only at hs
    split_ifs at hs with hp
    cases hs
    exact .write hp
  | exit =>
    simp only at hs
    split at hs
    · cases hs
      exact .exit ‹_›
    · cases hs

end Daemon

end HerdrEternal
