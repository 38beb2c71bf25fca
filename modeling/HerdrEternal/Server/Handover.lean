import HerdrEternal.Lib.Machine
import HerdrEternal.Server.Attach

/-!
# Handing sessions over to the next daemon

A daemon that shuts down asks every resumable session's task for its state
(`Server::handover_sessions`). The answers go to `sessions.json`, the open pipe ends are returned
under the names `<token>.<role>`, and the next daemon rebuilds the sessions from both
(`Server::restore_sessions`).

**The old daemon.** The tasks and the connections go on while `handover_sessions` waits for a
reply. `Handing` is one session together with what happens to it while its request waits, and
afterwards. A request is not answered if the task had ended before, if it ends before its turn
comes, or if it does not get there within the timeout.

**The new daemon.** `sessions.json` is modelled by its content, and a file descriptor by the pipe
end it stands for. All restored pipe ends are pipes, so wrapping them does not fail.
-/

namespace HerdrEternal

/-! ## The life of a session -/

/-- What can happen to a session in a daemon that is not shutting down. -/
inductive SessionEvent where
  | task (e : TaskEvent)
  | message (m : Msg)
  | datagram (m : Msg)
  | abort
  | acked (seq : Nat)
  deriving DecidableEq

/-- A disabled event changes nothing. The queue has a sender as long as the session is held by the
registry or by `handover_sessions`. -/
def Session.event (s : Session) : SessionEvent → Session
  | .task e => if e = .recvNone then s else (s.taskStep e).getD s
  | .message m => s.enqueue (.message m)
  | .datagram m => s.enqueue (.datagram m)
  | .abort => s.enqueue .abort
  | .acked seq => s.trimLog seq

def Session.events (s : Session) (es : List SessionEvent) : Session := es.foldl event s

/-- The task has replied to a handover request. -/
def Session.replied (s : Session) : Option SessionHandover :=
  match s.task.phase with
  | .returned (.handedOver r) => some r
  | _ => none

/-- Events go by until the reply is there. -/
def Session.await (s : Session) : List SessionEvent → Session
  | [] => s
  | e :: es => if s.replied.isSome then s else (s.event e).await es

/-! ## The old daemon -/

/-- A session when its turn in `handover_sessions` comes, and what happens to it from then on. -/
structure Handing where
  session : Session
  /-- While the request waits for its reply. -/
  wait : List SessionEvent
  /-- After the reply, or the timeout. -/
  late : List SessionEvent
  deriving DecidableEq

namespace Handing

/-- The session when its reply comes, or at the timeout. -/
def atReply (h : Handing) : Session := (h.session.enqueue .handover).await h.wait

/-- What the old daemon is left with. -/
def left (h : Handing) : Session := h.atReply.events h.late

/-- The reply to the request, if it comes in time. -/
def reply (h : Handing) : Option SessionHandover :=
  if h.session.ended then none else h.atReply.replied

/-- The task gets to the request in time: it is in its loop when the request is next in its queue,
and takes it before the timeout. -/
def Served (h : Handing) : Prop :=
  ∃ before after, h.wait = before ++ .task .recv :: after ∧
    ((h.session.enqueue .handover).events before).task.phase = .select ∧
    ((h.session.enqueue .handover).events before).inbound.head? = some .handover

/-- What `handover_sessions` takes of a session. -/
def handed (h : Handing) : Option SessionHandover :=
  if h.session.resumable then
    h.reply.map fun r => { r with state := { r.state with forwardAgent := h.session.agent } }
  else none

end Handing

/-- The name of a pipe end on its way to the next daemon. -/
def fdName (token : String) (role : Role) : String := token ++ "." ++ role.name

/-- The content of `sessions.json`. -/
def handoverRecords (registry : List (String × Handing)) : List (String × SessionRecord) :=
  registry.filterMap fun (token, h) => h.handed.map fun r => (token, r.state)

/-- The named pipe ends that `handover_sessions` returns. -/
def handoverFds (registry : List (String × Handing)) : List (String × Fd) :=
  registry.flatMap fun (token, h) =>
    h.handed.toList.flatMap fun r => r.fds.map fun (role, fd) => (fdName token role, fd)

/-! ## The new daemon -/

/-- `str::rsplit_once('.')`. -/
def rsplitOnce (name : String) : Option (String × String) :=
  let cs := name.toList.reverse
  match cs.dropWhile (· ≠ '.') with
  | [] => none
  | _ :: before =>
    some (String.ofList before.reverse, String.ofList (cs.takeWhile (· ≠ '.')).reverse)

/-- The pipe end for a role of a session; of several, the last one stays in the map. -/
def fdFor (fds : List (String × Fd)) (token : String) (role : Role) : Option Fd :=
  (fds.filter fun nf => rsplitOnce nf.1 = some (token, role.name)).getLast?.map (·.2)

/-- A stream that is not there any more gets a pipe that is at its end. -/
def receiver (fd : Option Fd) : Fd := fd.getD .drained

/-- A session rebuilt from its record and the pipe ends found for it. `history` is what went
through it so far. -/
def restoreSession (history : Trace) (fds : Role → Option Fd) (r : SessionRecord) : Session where
  inbound := []
  log := .restore r.trimmed r.buffer
  stdinApplied := r.stdinApplied
  agent := r.forwardAgent
  resumable := true
  registered := true
  task :=
    { stdin := fds .stdin
      stdout := receiver (fds .stdout)
      stderr := receiver (fds .stderr)
      exit := receiver (fds .exit)
      stdoutOpen := true
      stderrOpen := true
      exitCode := r.exitCode
      exitLine := []
      child := false
      pgid := r.pgid
      seq := (OutboundLog.restore r.trimmed r.buffer).latest
      lastClientSeq := r.stdinApplied
      phase := .select }
  trace := history

/-- `restore_sessions`: the registry of the new daemon. -/
def restoreSessions (history : String → Trace) (records : List (String × SessionRecord))
    (fds : List (String × Fd)) : List (String × Session) :=
  records.map fun (token, r) => (token, restoreSession (history token) (fdFor fds token) r)

/-! ## Many restarts -/

/-- The session that a session becomes which is handed over with reply `r`. -/
def Session.reborn (s : Session) (r : SessionHandover) : Session :=
  restoreSession s.trace (fun role => (r.fds.find? fun x => x.1 = role).map (·.2))
    { r.state with forwardAgent := s.agent }

/-- A session through the restarts of its daemon. -/
inductive LifeEvent where
  | event (e : SessionEvent)
  /-- The daemon is restarted; the session's reply comes after these events. -/
  | restart (wait : List SessionEvent)
  deriving DecidableEq

def Session.life (s : Session) : LifeEvent → Option Session
  | .event e => some (s.event e)
  | .restart wait =>
    let h : Handing := ⟨s, wait, []⟩
    h.reply.map h.atReply.reborn

/-- The sessions a chain of daemons can hold. -/
def Session.lifeMachine : Machine Session LifeEvent where
  init s := ∃ agent stdin stdout stderr exit pgid,
    s = .start true agent (.start stdin stdout stderr exit pgid)
  step := Session.life

end HerdrEternal
