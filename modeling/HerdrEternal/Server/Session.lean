import HerdrEternal.Server.OutboundLog
import Mathlib.Algebra.Group.Int.Defs

/-!
# Sessions and the session task

A session owns a child process and an outbound log. Its task (`session_task` of
`server/src/lib.rs`) is one loop around a `select!` over the child's stdout, stderr and exit
pipes and the queue of inputs from the connections.

**State.** `Task` holds the loop's local variables and its *phase*: where the task is suspended.
`Session` adds what is shared with the connections: the input queue, the log and the highest
applied stdin number.

**Steps** (`taskStep`). One step runs the task from one suspension point to the next. What the
outside world decides (which branch is ready, what a read returns, how many bytes a write takes)
is the event; an event is disabled where the loop does not wait for it.

**History.** `Trace` records what went through the pipes and the log. No step reads it.
-/

namespace HerdrEternal

/-! ## Pipes as the daemon holds them -/

/-- One end of a pipe. `drained` is the read end of a pipe that is empty and has no writer. -/
inductive Fd where
  | pipe (id : Nat)
  | drained
  deriving DecidableEq

/-- The names under which a session's pipe ends travel to the next daemon. -/
inductive Role where
  | stdin | stdout | stderr | exit
  deriving DecidableEq

def Role.name : Role → String
  | .stdin => "stdin"
  | .stdout => "stdout"
  | .stderr => "stderr"
  | .exit => "exit"

/-- The child's two output streams. -/
inductive Stream where
  | out | err
  deriving DecidableEq

def Stream.message : Stream → Nat → Data → Msg
  | .out => .stdout
  | .err => .stderr

/-- What `read` gives: some bytes, end of file (`Ok(0)`), or an error. -/
inductive ReadResult where
  | data (bytes : Data)
  | eof
  | error
  deriving DecidableEq

/-! ## Inputs and the handover record -/

inductive SessionInput where
  | message (m : Msg)
  /-- Unreliable duplicate that may overtake earlier stream messages. -/
  | datagram (m : Msg)
  | abort
  | handover
  deriving DecidableEq

/-- State of a resumable session travelling to the next daemon instance. -/
structure SessionRecord where
  pgid : Int32
  exitCode : Option Int32
  trimmed : Nat
  buffer : List Msg
  stdinApplied : Nat
  forwardAgent : Bool
  deriving DecidableEq

structure SessionHandover where
  state : SessionRecord
  /-- The still-open pipe ends, keyed by role. -/
  fds : List (Role × Fd)
  deriving DecidableEq

/-! ## The task -/

/-- How `session_task` returned. -/
inductive TaskEnd where
  | exited
  | aborted
  | handedOver (reply : SessionHandover)
  deriving DecidableEq

/-- Where the task is suspended. -/
inductive Phase where
  | select
  /-- In `write_stdin`, with these bytes still to be written. -/
  | writing (rest : Data)
  /-- In `child.wait()` after the exit code became known. -/
  | reaping
  /-- In `child.wait()` of `abort_session`. -/
  | aborting
  | returned (how : TaskEnd)
  deriving DecidableEq

/-- The local variables of `session_task`. -/
structure Task where
  stdin : Option Fd
  stdout : Fd
  stderr : Fd
  exit : Fd
  stdoutOpen : Bool
  stderrOpen : Bool
  exitCode : Option Int32
  exitLine : Data
  /-- Whether this daemon is the parent of the wrapper. -/
  child : Bool
  pgid : Int32
  seq : Nat
  lastClientSeq : Nat
  phase : Phase
  deriving DecidableEq

/-- What went through the pipes and the log so far. -/
structure Trace where
  /-- Every message ever pushed to the log. -/
  pushed : List Msg
  /-- Every byte read from the child's output pipes. -/
  read : List (Stream × UInt8)
  /-- Every byte written to the child's stdin. -/
  wrote : Data
  /-- A `StdinEof` closed the child's stdin while it was open. -/
  eof : Bool
  deriving DecidableEq

def Trace.empty : Trace := ⟨[], [], [], false⟩

structure Session where
  inbound : List SessionInput
  log : OutboundLog
  stdinApplied : Nat
  /-- Agent forwarding was requested. -/
  agent : Bool
  resumable : Bool
  /-- The session's token is in the registry. -/
  registered : Bool
  task : Task
  trace : Trace
  deriving DecidableEq

/-- What the task can be resumed by. -/
inductive TaskEvent where
  | outputRead (stream : Stream) (result : ReadResult)
  | exitRead (result : ReadResult)
  | recv
  /-- `recv` on an empty queue that has no sender left. -/
  | recvNone
  | stdinWritten (n : Nat)
  | stdinFailed
  | reaped
  deriving DecidableEq

/-- Size of the stdout and stderr buffers. -/
def STDIO_BUF : Nat := 16 * 1024

/-- Size of the buffer the exit line is read into. -/
def EXIT_BUF : Nat := 16

/-! ## Exit codes -/

/-- Unicode white space, as `str::trim` removes it. -/
def isWhiteSpace (c : Char) : Bool :=
  let n := c.toNat
  (0x9 ≤ n && n ≤ 0xD) || n = 0x20 || n = 0x85 || n = 0xA0 || n = 0x1680 ||
    (0x2000 ≤ n && n ≤ 0x200A) || n = 0x2028 || n = 0x2029 || n = 0x202F || n = 0x205F || n = 0x3000

def trimChars (cs : List Char) : List Char :=
  ((cs.dropWhile isWhiteSpace).reverse.dropWhile isWhiteSpace).reverse

/-- The value of a nonempty string of decimal digits. -/
def parseDigits : List Char → Option Nat
  | [] => none
  | cs => cs.foldl (fun acc c => acc.bind fun n =>
      if c.isDigit then some (10 * n + (c.toNat - '0'.toNat)) else none) (some 0)

/-- `str::parse::<i32>`. -/
def parseI32 (cs : List Char) : Option Int32 :=
  let value : Option Int := match cs with
    | '-' :: ds => (parseDigits ds).map fun n => -(n : Int)
    | '+' :: ds => (parseDigits ds).map fun n => (n : Int)
    | ds => (parseDigits ds).map fun n => (n : Int)
  value.bind fun i => if -2 ^ 31 ≤ i ∧ i < 2 ^ 31 then some (Int32.ofInt i) else none

/-- The exit code on the wrapper's line, or 255. A line that is not UTF-8 never parses, since
`from_utf8_lossy` puts replacement characters into it. -/
def parseExitLine (line : Data) : Int32 :=
  match String.fromUTF8? ⟨line.toArray⟩ with
  | some s => (parseI32 (trimChars s.toList)).getD 255
  | none => 255

/-- What the task makes of a read from the exit pipe: end of file without a line means that the
wrapper itself was killed. -/
def Task.readExit (t : Task) : ReadResult → Task
  | .eof | .error => { t with exitCode := some 255 }
  | .data bytes =>
    let line := t.exitLine ++ bytes
    if line.contains 10 then { t with exitLine := line, exitCode := some (parseExitLine line) }
    else { t with exitLine := line }

namespace Session

/-! ## The loop body -/

def setTask (s : Session) (t : Task) : Session := { s with task := t }

def push (s : Session) (m : Msg) : Session :=
  { s with log := s.log.push m, trace := { s.trace with pushed := s.trace.pushed ++ [m] } }

/-- The check at the end of the loop body: once the exit code is known and both streams ended,
log `Exit` and return; otherwise wait again. -/
def endOfLoop (s : Session) : Session :=
  match s.task.exitCode with
  | some code =>
    if s.task.stdoutOpen || s.task.stderrOpen then s.setTask { s.task with phase := .select }
    else
      let seq := s.task.seq + 1
      (s.push (.exit seq code)).setTask { s.task with seq := seq, phase := .returned .exited }
  | none => s.setTask { s.task with phase := .select }

def streamOpen (s : Session) : Stream → Bool
  | .out => s.task.stdoutOpen
  | .err => s.task.stderrOpen

def closeStream (s : Session) : Stream → Session
  | .out => s.setTask { s.task with stdoutOpen := false }
  | .err => s.setTask { s.task with stderrOpen := false }

/-- The stdout and stderr branches. -/
def onOutput (s : Session) (stream : Stream) : ReadResult → Session
  | .eof | .error => (s.closeStream stream).endOfLoop
  | .data bytes =>
    let seq := s.task.seq + 1
    let s := { s with trace := { s.trace with read := s.trace.read ++ bytes.map (stream, ·) } }
    ((s.push (stream.message seq bytes)).setTask { s.task with seq := seq }).endOfLoop

/-- The exit branch, up to reaping the wrapper. -/
def onExit (s : Session) (result : ReadResult) : Session :=
  let t := s.task.readExit result
  if t.exitCode.isSome && t.child then s.setTask { t with phase := .reaping }
  else (s.setTask t).endOfLoop

/-- After `write_stdin`: publish the applied number. -/
def finishWrite (s : Session) : Session :=
  { s with stdinApplied := s.task.lastClientSeq }.endOfLoop

/-- Apply a stdin chunk. A closed stdin swallows it. -/
def applyStdin (s : Session) (seq : Nat) (data : Data) : Session :=
  let s := s.setTask { s.task with lastClientSeq := seq }
  if s.task.stdin.isNone || data.isEmpty then s.finishWrite
  else s.setTask { s.task with phase := .writing data }

def applyEof (s : Session) (seq : Nat) : Session :=
  let trace := { s.trace with eof := s.trace.eof || s.task.stdin.isSome }
  { s with
    stdinApplied := seq
    trace := trace
    task := { s.task with lastClientSeq := seq, stdin := none } }.endOfLoop

/-- The pipe ends given back for the fd store. -/
def openFds (t : Task) : List (Role × Fd) :=
  (t.stdin.map fun fd => (Role.stdin, fd)).toList ++
    (if t.stdoutOpen then [(Role.stdout, t.stdout)] else []) ++
    (if t.stderrOpen then [(Role.stderr, t.stderr)] else []) ++
    if t.exitCode.isNone then [(Role.exit, t.exit)] else []

/-- The reply to a handover request; `handover_sessions` fills in `forward_agent`. -/
def handoverReply (s : Session) : SessionHandover where
  state :=
    { pgid := s.task.pgid
      exitCode := s.task.exitCode
      trimmed := s.log.snapshot.1
      buffer := s.log.snapshot.2
      stdinApplied := s.task.lastClientSeq
      forwardAgent := false }
  fds := openFds s.task

/-- `abort_session`, up to reaping the wrapper. -/
def abort (s : Session) : Session :=
  s.setTask { s.task with phase := if s.task.child then .aborting else .returned .aborted }

end Session

/-- Stream messages carry their order: anything newer is the next message. -/
def acceptStream {ν : Type} [LT ν] [DecidableLT ν] (seq last : ν) : Bool := decide (last < seq)

/-- Datagrams may overtake, so only the very next message counts. -/
def acceptDatagram {ν : Type} [DecidableEq ν] [Add ν] [OfNat ν 1] (seq last : ν) : Bool :=
  decide (seq = last + 1)

namespace Session

/-- The input branch. -/
def onInput (s : Session) : SessionInput → Session
  | .message (.stdin seq data) =>
    if acceptStream seq s.task.lastClientSeq then s.applyStdin seq data else s.endOfLoop
  | .datagram (.stdin seq data) =>
    if acceptDatagram seq s.task.lastClientSeq then s.applyStdin seq data else s.endOfLoop
  | .datagram _ => s.endOfLoop
  | .message (.stdinEof seq) =>
    if acceptStream seq s.task.lastClientSeq then s.applyEof seq else s.endOfLoop
  | .message _ => s.endOfLoop
  | .handover => s.setTask { s.task with phase := .returned (.handedOver s.handoverReply) }
  | .abort => s.abort

/-- A read fills at most the buffer, and is not empty. -/
def readFits (cap : Nat) : ReadResult → Bool
  | .data bytes => 0 < bytes.length && bytes.length ≤ cap
  | _ => true

/-- One step of `session_task`. -/
def taskStep (s : Session) (e : TaskEvent) : Option Session :=
  match s.task.phase, e with
  | .select, .outputRead stream r =>
    if s.streamOpen stream && readFits STDIO_BUF r then some (s.onOutput stream r) else none
  | .select, .exitRead r =>
    if s.task.exitCode.isNone && readFits EXIT_BUF r then some (s.onExit r) else none
  | .select, .recv =>
    match s.inbound with
    | [] => none
    | input :: rest => some ({ s with inbound := rest }.onInput input)
  | .select, .recvNone => if s.inbound.isEmpty then some s.abort else none
  | .writing rest, .stdinWritten n =>
    if 0 < n && n ≤ rest.length then
      let s := { s with trace := { s.trace with wrote := s.trace.wrote ++ rest.take n } }
      if n = rest.length then some s.finishWrite
      else some (s.setTask { s.task with phase := .writing (rest.drop n) })
    else none
  | .writing _, .stdinFailed => some (s.setTask { s.task with stdin := none }).finishWrite
  | .reaping, .reaped => some s.endOfLoop
  | .aborting, .reaped => some (s.setTask { s.task with phase := .returned .aborted })
  | _, _ => none

/-- The task has returned; nothing reads the input queue any more. -/
def ended (s : Session) : Bool :=
  match s.task.phase with
  | .returned _ => true
  | _ => false

end Session

/-! ## Where a session starts -/

/-- The task of a freshly started session, with the given pipe ends. -/
def Task.start (stdin stdout stderr exit : Fd) (pgid : Int32) : Task :=
  { stdin := some stdin, stdout := stdout, stderr := stderr, exit := exit
    stdoutOpen := true, stderrOpen := true, exitCode := none, exitLine := [], child := true
    pgid := pgid, seq := 0, lastClientSeq := 0, phase := .select }

/-- `start_session`, once its token is in the registry. -/
def Session.start (resumable agent : Bool) (task : Task) : Session :=
  { inbound := [], log := .empty, stdinApplied := 0, agent := agent, resumable := resumable
    registered := true, task := task, trace := .empty }

end HerdrEternal
