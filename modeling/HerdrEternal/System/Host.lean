import HerdrEternal.Server.Handover
import HerdrEternal.Server.TaskIo

/-!
# A session, its processes and the fd store

One resumable session together with what is around it on its host: the pipes to the command, the
command's processes, the `/bin/sh` wrapper that reports the exit code, and the fd store of the
service manager, through any number of restarts of the daemon.

**Pipes.** A pipe has a finite capacity. A read takes what is there, up to the size of the
reader's buffer; at the end of a pipe that nobody can write to any more it gives end of file. A
write that does not fit waits. A pipe end of the session that is not drained is that of the pipe
of its role, since roles do not mix in a handover (`fdFor_handoverFds`).

**Processes.** They are any program: on each stream they write when and what they like, they read
stdin or not, and close what they hold. The wrapper writes the command's exit code as one line,
which fits the task's buffer, and ends; or it is killed. What is held at a pipe's other end is held
by some process of the session.

**The store** keeps every fd it is given, and passes all of them to each daemon that starts. It
polls what it holds, so it may discard a pipe end once the other end has hung up.
-/

namespace HerdrEternal

/-! ## State -/

structure Pipe where
  bytes : Data
  cap : Nat
  /-- A process of the session holds the other end. -/
  held : Bool
  deriving DecidableEq

def Pipe.free (p : Pipe) : Nat := p.cap - p.bytes.length

/-- Reading into a buffer of size `n`: what `read` returns, and what stays in the pipe. -/
def Pipe.read (p : Pipe) (n : Nat) : Option (ReadResult × Pipe) :=
  if p.bytes ≠ [] then some (.data (p.bytes.take n), { p with bytes := p.bytes.drop n })
  else if p.held then none
  else some (.eof, p)

def Pipe.write (p : Pipe) (data : Data) : Pipe := { p with bytes := p.bytes ++ data }

def Pipe.hangUp (p : Pipe) : Pipe := { p with held := false }

/-- The process that runs the command and reports how it ended. -/
inductive Wrapper where
  | running
  | finished (code : UInt8)
  | killed
  deriving DecidableEq

/-- `echo "$?"`. -/
def exitLine (code : UInt8) : Data :=
  (Nat.toDigits 10 code.toNat).map (fun c => UInt8.ofNat c.toNat) ++ [10]

/-- The code a session has to report. -/
def Wrapper.code : Wrapper → Option Int32
  | .running => none
  | .finished code => some (Int32.ofNat code.toNat)
  | .killed => some 255

structure Host where
  session : Session
  pipes : Role → Pipe
  /-- What a process is about to write to a stream. -/
  pending : Stream → Data
  wrapper : Wrapper
  store : List (String × Fd)
  /-- The daemon has stopped, and the next one has not started yet. -/
  stopped : Bool
  /-- Every byte written to the output streams. -/
  written : List (Stream × UInt8)
  /-- The task has applied a `StdinEof`. -/
  eofApplied : Bool

inductive HostLabel where
  | read (stream : Stream)
  | readExit
  | recv
  | write (n : Nat)
  | writeFail
  | reaped
  | input (i : SessionInput)
  | acked (seq : Nat)
  | childRead (n : Nat)
  | childWrite (stream : Stream) (data : Data)
  | childWrote (stream : Stream) (n : Nat)
  | childClose (role : Role)
  | finish (code : UInt8)
  | kill
  | shutDown
  | discard (role : Role)
  | restart
  deriving DecidableEq

/-- The task's own steps. -/
def HostLabel.isTask : HostLabel → Bool
  | .read _ | .readExit | .recv | .write _ | .writeFail | .reaped => true
  | _ => false

/-! ## Steps -/

namespace Host

def setSession (x : Host) (s : Session) : Host := { x with session := s }

def setPipe (x : Host) (role : Role) (p : Pipe) : Host :=
  { x with pipes := Function.update x.pipes role p }

def setPending (x : Host) (stream : Stream) (data : Data) : Host :=
  { x with pending := Function.update x.pending stream data }

/-- The task goes on with a step. -/
def task (x : Host) (e : TaskEvent) : Option Host := (x.session.taskStep e).map x.setSession

/-- A read from a pipe end of the session. -/
def readFd (x : Host) (role : Role) (n : Nat) : Fd → Option (ReadResult × Host)
  | .drained => some (.eof, x)
  | .pipe _ => ((x.pipes role).read n).map fun (r, p) => (r, x.setPipe role p)

/-- The next input is a `StdinEof` that the task will apply. -/
def takesEof (s : Session) : Bool :=
  match s.inbound.head? with
  | some (.message (.stdinEof seq)) => acceptStream seq s.task.lastClientSeq
  | _ => false

/-- A process leaves a stream; what it was about to write there is not written. -/
def childLeaves (x : Host) : Role → Host
  | .stdout => x.setPending .out []
  | .stderr => x.setPending .err []
  | _ => x

def step (token : String) (x : Host) : HostLabel → Option Host
  | .read stream =>
    (x.readFd stream.role STDIO_BUF (x.session.task.output stream)).bind fun (r, y) =>
      y.task (.outputRead stream r)
  | .readExit => (x.readFd .exit EXIT_BUF x.session.task.exit).bind fun (r, y) => y.task (.exitRead r)
  | .recv =>
    { x with eofApplied := x.eofApplied || takesEof x.session }.task .recv
  | .write n =>
    match x.session.task.phase with
    | .writing rest =>
      if (x.pipes .stdin).held && n ≤ (x.pipes .stdin).free then
        (x.setPipe .stdin ((x.pipes .stdin).write (rest.take n))).task (.stdinWritten n)
      else none
    | _ => none
  | .writeFail => if (x.pipes .stdin).held then none else x.task .stdinFailed
  | .reaped => if x.wrapper = .running then none else x.task .reaped
  | .input i => some (x.setSession (x.session.enqueue i))
  | .acked seq => some (x.setSession (x.session.trimLog seq))
  | .childRead n =>
    let p := x.pipes .stdin
    if p.held && 0 < n && n ≤ p.bytes.length then
      some (x.setPipe .stdin { p with bytes := p.bytes.drop n })
    else none
  | .childWrite stream data =>
    if (x.pipes stream.role).held && x.pending stream = [] then some (x.setPending stream data)
    else none
  | .childWrote stream n =>
    let p := x.pipes stream.role
    let data := (x.pending stream).take n
    if p.held && 0 < n && n ≤ (x.pending stream).length && n ≤ p.free then
      some { ((x.setPipe stream.role (p.write data)).setPending stream
        ((x.pending stream).drop n)) with written := x.written ++ data.map (stream, ·) }
    else none
  | .childClose role =>
    if role ≠ .exit ∧ (x.pipes role).held then
      some ((x.setPipe role (x.pipes role).hangUp).childLeaves role)
    else none
  | .finish code =>
    if x.wrapper = .running then
      some { (x.setPipe .exit ((x.pipes .exit).write (exitLine code)).hangUp) with
        wrapper := .finished code }
    else none
  | .kill =>
    if x.wrapper = .running then
      some { (x.setPipe .exit (x.pipes .exit).hangUp) with wrapper := .killed }
    else none
  | .shutDown =>
    match x.session.replied with
    | some r =>
      if x.stopped then none
      else some { x with
        store := x.store ++ r.fds.map fun (role, fd) => (fdName token role, fd)
        stopped := true }
    | none => none
  | .discard role =>
    if (x.pipes role).held then none
    else some { x with store := x.store.filter fun nf => nf.1 ≠ fdName token role }
  | .restart =>
    match x.session.replied with
    | some r =>
      if x.stopped then
        some { x with
          session := restoreSession x.session.trace (fdFor x.store token)
            { r.state with forwardAgent := x.session.agent }
          stopped := false }
      else none
    | none => none

/-- A fresh session, with pipes of the given capacities. -/
def start (agent : Bool) (pgid : Int32) (cap : Role → Nat) : Host where
  session := .start true agent (.start (.pipe 0) (.pipe 1) (.pipe 2) (.pipe 3) pgid)
  pipes role := ⟨[], cap role, true⟩
  pending _ := []
  wrapper := .running
  store := []
  stopped := false
  written := []
  eofApplied := false

def machine (token : String) : Machine Host HostLabel where
  init x := ∃ agent pgid cap, x = start agent pgid cap
  step := step token

/-! ## What a step can do -/

@[simp] theorem pipes_setSession (x : Host) (s : Session) : (x.setSession s).pipes = x.pipes := rfl

@[simp] theorem pipes_setPipe_self (x : Host) (role : Role) (p : Pipe) :
    (x.setPipe role p).pipes role = p := Function.update_self ..

theorem pipes_setPipe_of_ne {role role' : Role} (h : role' ≠ role) (x : Host) (p : Pipe) :
    (x.setPipe role p).pipes role' = x.pipes role' := Function.update_of_ne h ..

/-- A pipe end of the session is at its end. -/
def AtEnd (x : Host) (role : Role) (fd : Fd) : Prop :=
  fd = .drained ∨ ((x.pipes role).bytes = [] ∧ (x.pipes role).held = false)

/-- Every step, by its branch and with the guard it passed. -/
inductive Step (token : String) (x : Host) : HostLabel → Host → Prop
  | readData {stream : Stream} {s : Session} (hfd : x.session.task.output stream ≠ .drained)
      (hne : (x.pipes stream.role).bytes ≠ [])
      (hs : x.session.taskStep
        (.outputRead stream (.data ((x.pipes stream.role).bytes.take STDIO_BUF))) = some s) :
      Step token x (.read stream) ((x.setPipe stream.role { x.pipes stream.role with
        bytes := (x.pipes stream.role).bytes.drop STDIO_BUF }).setSession s)
  | readEof {stream : Stream} {s : Session}
      (hend : x.AtEnd stream.role (x.session.task.output stream))
      (hs : x.session.taskStep (.outputRead stream .eof) = some s) :
      Step token x (.read stream) (x.setSession s)
  | exitData {s : Session} (hfd : x.session.task.exit ≠ .drained)
      (hne : (x.pipes .exit).bytes ≠ [])
      (hs : x.session.taskStep (.exitRead (.data ((x.pipes .exit).bytes.take EXIT_BUF))) = some s) :
      Step token x .readExit ((x.setPipe .exit { x.pipes .exit with
        bytes := (x.pipes .exit).bytes.drop EXIT_BUF }).setSession s)
  | exitEof {s : Session} (hend : x.AtEnd .exit x.session.task.exit)
      (hs : x.session.taskStep (.exitRead .eof) = some s) :
      Step token x .readExit (x.setSession s)
  | recv {s : Session} (hs : x.session.taskStep .recv = some s) :
      Step token x .recv { x with
        session := s
        eofApplied := x.eofApplied || takesEof x.session }
  | write {rest : Data} {n : Nat} {s : Session} (hp : x.session.task.phase = .writing rest)
      (hheld : (x.pipes .stdin).held = true) (hfree : n ≤ (x.pipes .stdin).free)
      (hs : x.session.taskStep (.stdinWritten n) = some s) :
      Step token x (.write n)
        ((x.setPipe .stdin ((x.pipes .stdin).write (rest.take n))).setSession s)
  | writeFail {s : Session} (hheld : (x.pipes .stdin).held = false)
      (hs : x.session.taskStep .stdinFailed = some s) : Step token x .writeFail (x.setSession s)
  | reaped {s : Session} (hw : x.wrapper ≠ .running) (hs : x.session.taskStep .reaped = some s) :
      Step token x .reaped (x.setSession s)
  | input {i : SessionInput} : Step token x (.input i) (x.setSession (x.session.enqueue i))
  | acked {seq : Nat} : Step token x (.acked seq) (x.setSession (x.session.trimLog seq))
  | childRead {n : Nat} (hheld : (x.pipes .stdin).held = true) :
      Step token x (.childRead n) (x.setPipe .stdin { x.pipes .stdin with
        bytes := (x.pipes .stdin).bytes.drop n })
  | childWrite {stream : Stream} {data : Data} (hheld : (x.pipes stream.role).held = true) :
      Step token x (.childWrite stream data) (x.setPending stream data)
  | childWrote {stream : Stream} {n : Nat} (hheld : (x.pipes stream.role).held = true)
      (hfree : n ≤ (x.pipes stream.role).free) :
      Step token x (.childWrote stream n) { ((x.setPipe stream.role
        ((x.pipes stream.role).write ((x.pending stream).take n))).setPending stream
          ((x.pending stream).drop n)) with
        written := x.written ++ ((x.pending stream).take n).map (stream, ·) }
  | childClose {role : Role} (hrole : role ≠ .exit) :
      Step token x (.childClose role) ((x.setPipe role (x.pipes role).hangUp).childLeaves role)
  | finish {code : UInt8} (hw : x.wrapper = .running) :
      Step token x (.finish code) { (x.setPipe .exit
        ((x.pipes .exit).write (exitLine code)).hangUp) with wrapper := .finished code }
  | kill (hw : x.wrapper = .running) :
      Step token x .kill { (x.setPipe .exit (x.pipes .exit).hangUp) with wrapper := .killed }
  | shutDown {r : SessionHandover} (hr : x.session.replied = some r) (hup : x.stopped = false) :
      Step token x .shutDown { x with
        store := x.store ++ r.fds.map fun (role, fd) => (fdName token role, fd)
        stopped := true }
  | discard {role : Role} (hheld : (x.pipes role).held = false) :
      Step token x (.discard role) { x with
        store := x.store.filter fun nf => nf.1 ≠ fdName token role }
  | restart {r : SessionHandover} (hr : x.session.replied = some r) (hdown : x.stopped = true) :
      Step token x .restart { x with
        session := restoreSession x.session.trace (fdFor x.store token)
          { r.state with forwardAgent := x.session.agent }
        stopped := false }

variable {token : String} {x y : Host}

theorem task_eq_some {e : TaskEvent} (h : x.task e = some y) :
    ∃ s, x.session.taskStep e = some s ∧ y = x.setSession s := by
  obtain ⟨s, hs, rfl⟩ := Option.map_eq_some_iff.mp h
  exact ⟨s, hs, rfl⟩

/-- A read gives end of file, or what is in the pipe. -/
theorem readFd_cases {role : Role} {n : Nat} {fd : Fd} {r : ReadResult}
    (h : x.readFd role n fd = some (r, y)) :
    (x.AtEnd role fd ∧ r = .eof ∧ y.session = x.session ∧ ∀ s, y.setSession s = x.setSession s) ∨
    (fd ≠ .drained ∧ (x.pipes role).bytes ≠ [] ∧ r = .data ((x.pipes role).bytes.take n) ∧
      y = x.setPipe role { x.pipes role with bytes := (x.pipes role).bytes.drop n }) := by
  cases fd with
  | drained =>
    cases h
    exact .inl ⟨.inl rfl, rfl, rfl, fun _ => rfl⟩
  | pipe id =>
    obtain ⟨⟨r', p⟩, hread, heq⟩ := Option.map_eq_some_iff.mp h
    cases heq
    unfold Pipe.read at hread
    split_ifs at hread with hne hheld
    · cases hread
      exact .inr ⟨by simp, hne, rfl, rfl⟩
    · cases hread
      refine .inl ⟨.inr ⟨not_not.mp hne, Bool.not_eq_true _ ▸ hheld⟩, rfl, rfl, fun s => ?_⟩
      unfold setPipe setSession
      rw [Function.update_eq_self]

theorem Step.of_step {l : HostLabel} (h : x.step token l = some y) : Step token x l y := by
  cases l with
  | read stream =>
    obtain ⟨⟨r, x'⟩, hread, htask⟩ := Option.bind_eq_some_iff.mp h
    obtain ⟨s, hs, rfl⟩ := task_eq_some htask
    rcases readFd_cases hread with ⟨hend, rfl, hsess, heq⟩ | ⟨hfd, hne, rfl, rfl⟩
    · rw [heq]
      exact .readEof hend (hsess ▸ hs)
    · exact .readData hfd hne hs
  | readExit =>
    obtain ⟨⟨r, x'⟩, hread, htask⟩ := Option.bind_eq_some_iff.mp h
    obtain ⟨s, hs, rfl⟩ := task_eq_some htask
    rcases readFd_cases hread with ⟨hend, rfl, hsess, heq⟩ | ⟨hfd, hne, rfl, rfl⟩
    · rw [heq]
      exact .exitEof hend (hsess ▸ hs)
    · exact .exitData hfd hne hs
  | recv =>
    obtain ⟨s, hs, rfl⟩ := task_eq_some h
    exact .recv hs
  | write n =>
    simp only [step] at h
    split at h
    · rename_i rest hp
      split_ifs at h with hg
      simp only [Bool.and_eq_true, decide_eq_true_eq] at hg
      obtain ⟨s, hs, rfl⟩ := task_eq_some h
      exact .write hp hg.1 hg.2 hs
    · cases h
  | writeFail =>
    simp only [step] at h
    split_ifs at h with hg
    obtain ⟨s, hs, rfl⟩ := task_eq_some h
    exact .writeFail (Bool.not_eq_true _ ▸ hg) hs
  | reaped =>
    simp only [step] at h
    split_ifs at h with hg
    obtain ⟨s, hs, rfl⟩ := task_eq_some h
    exact .reaped hg hs
  | input i =>
    cases h
    exact .input
  | acked seq =>
    cases h
    exact .acked
  | childRead n =>
    simp only [step] at h
    split_ifs at h with hg
    simp only [Bool.and_eq_true] at hg
    cases h
    exact .childRead hg.1.1
  | childWrite stream data =>
    simp only [step] at h
    split_ifs at h with hg
    simp only [Bool.and_eq_true] at hg
    cases h
    exact .childWrite hg.1
  | childWrote stream n =>
    simp only [step] at h
    split_ifs at h with hg
    simp only [Bool.and_eq_true, decide_eq_true_eq] at hg
    cases h
    exact .childWrote hg.1.1.1 hg.2
  | childClose role =>
    simp only [step] at h
    split_ifs at h with hg
    cases h
    exact .childClose hg.1
  | finish code =>
    simp only [step] at h
    split_ifs at h with hg
    cases h
    exact .finish hg
  | kill =>
    simp only [step] at h
    split_ifs at h with hg
    cases h
    exact .kill hg
  | shutDown =>
    simp only [step] at h
    split at h
    · rename_i r hr
      split_ifs at h with hg
      cases h
      exact .shutDown hr (Bool.not_eq_true _ ▸ hg)
    · cases h
  | discard role =>
    simp only [step] at h
    split_ifs at h with hg
    cases h
    exact .discard (Bool.not_eq_true _ ▸ hg)
  | restart =>
    simp only [step] at h
    split at h
    · rename_i r hr
      split_ifs at h with hg
      cases h
      exact .restart hr hg
    · cases h

end Host

end HerdrEternal
