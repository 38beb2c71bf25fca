import HerdrEternal.Lib.Table
import HerdrEternal.Server.PushSteps

/-!
# Every log is a window on its history

Logs of one daemon and of those after it. A log belongs to an *incarnation* of a session: a fresh
one, or one restored from what an earlier incarnation gave back for the handover. Its task runs as
two-step pushes allow, its inputs and the trims come from any connections at any time, also after
the task has returned. A trim that comes after the handover's snapshot belongs to the old log and
not to the restored one.

An incarnation remembers every trim, with the length of the history when it came. From these calls
alone `RefinesHistory` says what the log holds: it has forgotten exactly as much as the greatest
`min seq |H|` of its trims. `refines_history` shows it for every log of every run.
-/

namespace HerdrEternal

/-- Calls of `trim`: the argument, and the length of the history at the call. -/
abbrev Trims := List (Nat × Nat)

/-- How much of the history these trims have dropped. -/
def Trims.greatest (trims : Trims) : Nat := (trims.map fun c => min c.1 c.2).foldr max 0

/-- A session on a fresh or restored log. -/
structure Incarnation where
  running : Running
  trims : Trims
  /-- The trims before the task's last step: those the handover's snapshot has seen. -/
  handed : Trims
  deriving DecidableEq

namespace Incarnation

def log (x : Incarnation) : OutboundLog := x.running.session.log

/-- Every message ever pushed. -/
def history (x : Incarnation) : List Msg := x.running.session.trace.pushed

/-- `start_session`. -/
def fresh (s : Session) : Incarnation := ⟨⟨s, none⟩, [], []⟩

def task (x : Incarnation) (e : TaskEvent) : Option Incarnation :=
  (x.running.task e).map fun r => { x with running := r, handed := x.trims }

def publish (x : Incarnation) : Option Incarnation :=
  x.running.publish.map fun r => { x with running := r }

def input (x : Incarnation) (input : SessionInput) : Incarnation :=
  { x with running := { x.running with session := x.running.session.enqueue input } }

def trim (x : Incarnation) (seq : Nat) : Incarnation :=
  { x with
    running := x.running.setLog (x.log.trim seq)
    trims := (seq, x.history.length) :: x.trims }

/-- `restore_sessions`, from the record the task replied with and the pipe ends found for it. -/
def restore (x : Incarnation) (fds : Role → Option Fd) : Option Incarnation :=
  x.running.session.replied.map fun r =>
    let record := { r.state with forwardAgent := x.running.session.agent }
    ⟨⟨restoreSession x.running.session.trace fds record, none⟩, x.handed, x.handed⟩

end Incarnation

inductive HistoryLabel where
  | start (resumable agent : Bool) (stdin stdout stderr exit : Fd) (pgid : Int32)
  | task (i : Nat) (e : TaskEvent)
  | publish (i : Nat)
  | input (i : Nat) (input : SessionInput)
  | trim (i seq : Nat)
  /-- Reading the log leaves it as it is. -/
  | after (i seq : Nat)
  | restore (i : Nat) (fds : Role → Option Fd)

def historyStep (logs : List Incarnation) : HistoryLabel → Option (List Incarnation)
  | .start resumable agent stdin stdout stderr exit pgid =>
    some (logs ++ [.fresh (.start resumable agent (.start stdin stdout stderr exit pgid))])
  | .task i e => logs[i]?.bind fun x => (x.task e).map fun x' => logs.set i x'
  | .publish i => logs[i]?.bind fun x => x.publish.map fun x' => logs.set i x'
  | .input i input => logs[i]?.map fun x => logs.set i (x.input input)
  | .trim i seq => logs[i]?.map fun x => logs.set i (x.trim seq)
  | .after i _ => logs[i]?.map fun _ => logs
  | .restore i fds => logs[i]?.bind fun x => (x.restore fds).map fun x' => logs ++ [x']

/-- The logs of all incarnations so far. -/
def historyMachine : Machine (List Incarnation) HistoryLabel where
  init logs := logs = []
  step := historyStep

/-! ## What one log keeps -/

namespace Incarnation

variable {x x' : Incarnation}

/-- The task's side is in order, the trims account for what is gone, and what the task gave back is
the window on the history as the snapshot has seen it. -/
structure Ok (x : Incarnation) : Prop where
  running : x.running.Ok
  trimmed : x.log.trimmed = x.trims.greatest
  record : ∀ r, x.running.session.replied = some r →
    (OutboundLog.restore r.state.trimmed r.state.buffer).Refines x.history ∧
      r.state.trimmed = x.handed.greatest

theorem Ok.refines (h : Ok x) : x.running.settled.log.Refines x.history :=
  h.running.wf.logged.refines

theorem ok_fresh {s : Session} (h : s.Wf) (htrimmed : s.log.trimmed = 0)
    (hp : s.task.phase = .select) : Ok (fresh s) where
  running := .of_wf h
  trimmed := htrimmed
  record := by
    intro r hr
    simp [fresh, Session.replied, hp] at hr

theorem Ok.task {e : TaskEvent} (h : Ok x) (hs : x.task e = some x') : Ok x' := by
  obtain ⟨r, hr, rfl⟩ := Option.map_eq_some_iff.mp hs
  have htrimmed : r.session.log.trimmed = x.log.trimmed := by
    have hst := (Running.task_settled hr).2
    exact (Session.Grows.taskStep hst).trimmed
  refine ⟨h.running.task hr, htrimmed.trans h.trimmed, ?_⟩
  intro reply hreply
  have hst := (Running.task_settled hr).2
  obtain ⟨-, -, -, rfl⟩ := Session.taskStep_replied hst hreply
  exact ⟨(h.running.task hr).wf.logged.refines.restore, htrimmed.trans h.trimmed⟩

theorem Ok.publish (h : Ok x) (hs : x.publish = some x') : Ok x' := by
  obtain ⟨r, hr, rfl⟩ := Option.map_eq_some_iff.mp hs
  have hrunning := h.running.publish hr
  obtain ⟨seq, -, rfl⟩ := Option.map_eq_some_iff.mp hr
  exact ⟨hrunning, h.trimmed, h.record⟩

theorem Ok.input (h : Ok x) (input : SessionInput) : Ok (x.input input) :=
  ⟨h.running.enqueue input, h.trimmed, h.record⟩

theorem Ok.trim (h : Ok x) (seq : Nat) : Ok (x.trim seq) := by
  refine ⟨h.running.trim seq, ?_, h.record⟩
  have htrim : (x.log.trim seq).trimmed = max x.log.trimmed (min seq x.history.length) :=
    h.refines.trimmed_trim seq
  show (x.log.trim seq).trimmed = max (min seq x.history.length) x.trims.greatest
  rw [htrim, h.trimmed, max_comm]

/-- A restored log starts as the window that was handed over. -/
theorem Ok.restore {fds : Role → Option Fd} (h : Ok x) (hs : x.restore fds = some x') : Ok x' := by
  obtain ⟨r, hr, rfl⟩ := Option.map_eq_some_iff.mp hs
  obtain ⟨hrefines, htrimmed⟩ := h.record r hr
  have hphase : x.running.settled.task.phase ≠ .returned .exited := by
    intro hp
    have hnone : x.running.session.replied = none := by
      unfold Session.replied
      rw [show x.running.session.task.phase = _ from hp]
    rw [hnone] at hr
    cases hr
  refine ⟨.of_wf (Session.Wf.restore h.running.wf hphase (r := { r.state with
    forwardAgent := x.running.session.agent }) hrefines fds), htrimmed, ?_⟩
  intro r' hr'
  cases hr'

end Incarnation

theorem historyStep_ok {logs logs' : List Incarnation} {l : HistoryLabel}
    (h : ∀ (i : Nat) (x : Incarnation), logs[i]? = some x → x.Ok)
    (hs : historyStep logs l = some logs') :
    ∀ (i : Nat) (x : Incarnation), logs'[i]? = some x → x.Ok := by
  cases l with
  | start resumable agent stdin stdout stderr exit pgid =>
    cases hs
    have hwf := Session.wf_start resumable agent stdin stdout stderr exit pgid
    exact Table.forall_concat (P := fun _ => Incarnation.Ok) h (Incarnation.ok_fresh hwf rfl rfl)
  | task i e =>
    obtain ⟨x, hx, hs⟩ := Option.bind_eq_some_iff.mp hs
    obtain ⟨x', hx', rfl⟩ := Option.map_eq_some_iff.mp hs
    exact Table.forall_set (P := fun _ => Incarnation.Ok) h ((h i x hx).task hx')
  | publish i =>
    obtain ⟨x, hx, hs⟩ := Option.bind_eq_some_iff.mp hs
    obtain ⟨x', hx', rfl⟩ := Option.map_eq_some_iff.mp hs
    exact Table.forall_set (P := fun _ => Incarnation.Ok) h ((h i x hx).publish hx')
  | input i input =>
    obtain ⟨x, hx, rfl⟩ := Option.map_eq_some_iff.mp hs
    exact Table.forall_set (P := fun _ => Incarnation.Ok) h ((h i x hx).input input)
  | trim i seq =>
    obtain ⟨x, hx, rfl⟩ := Option.map_eq_some_iff.mp hs
    exact Table.forall_set (P := fun _ => Incarnation.Ok) h ((h i x hx).trim seq)
  | after i seq =>
    obtain ⟨x, -, rfl⟩ := Option.map_eq_some_iff.mp hs
    exact h
  | restore i fds =>
    obtain ⟨x, hx, hs⟩ := Option.bind_eq_some_iff.mp hs
    obtain ⟨x', hx', rfl⟩ := Option.map_eq_some_iff.mp hs
    exact Table.forall_concat (P := fun _ => Incarnation.Ok) h ((h i x hx).restore hx')

theorem history_ok {logs : List Incarnation} (h : historyMachine.Reachable logs) :
    ∀ (i : Nat) (x : Incarnation), logs[i]? = some x → x.Ok := by
  refine h.invariant
    (P := fun logs => ∀ (i : Nat) (x : Incarnation), logs[i]? = some x → x.Ok) ?_ ?_
  · intro logs hinit i x hx
    rw [show logs = [] from hinit] at hx
    cases hx
  · exact fun _ _ _ h _ hs => historyStep_ok h hs

/-! ## The log from the history and the trims alone -/

/-- What a log is, told from what was ever pushed and from the trims that came. -/
structure RefinesHistory (l : OutboundLog) (H : List Msg) (trims : Trims) : Prop where
  trimmed_eq : l.trimmed = trims.greatest
  buffer_eq : l.buffer = H.drop trims.greatest
  seq_eq : ∀ i m, l.buffer[i]? = some m → m.seq? = some (l.trimmed + i + 1)
  after_eq : ∀ seq, l.after seq = H.filter fun m => m.seq?.any (max seq trims.greatest < ·)
  trim_le : ∀ seq, l.trimmed ≤ (l.trim seq).trimmed
  trim_mono : ∀ seq seq', seq ≤ seq' → (l.trim seq).trimmed ≤ (l.trim seq').trimmed
  trim_idem : ∀ seq, (l.trim seq).trim seq = l.trim seq

/-- An Exit message stands at the end of the history only, and is there only once both output
streams ended and the exit code is known. -/
def ExitLast (s : Session) : Prop :=
  ∀ i seq code, s.trace.pushed[i]? = some (.exit seq code) →
    i + 1 = s.trace.pushed.length ∧ s.task.stdoutOpen = false ∧ s.task.stderrOpen = false ∧
      s.task.exitCode = some code

theorem exitLast_of_wf {s : Session} (h : s.Wf) : ExitLast s := by
  intro i seq code hi
  obtain ⟨hcode, -, -, hout, herr⟩ := h.exit_last hi
  exact ⟨h.exit_index hi, hout, herr, hcode⟩

theorem OutboundLog.Refines.trim_idem {H : List Msg} {l : OutboundLog} (h : l.Refines H)
    (seq : Nat) : (l.trim seq).trim seq = l.trim seq := by
  have htrim := h.trim seq
  have hagain := htrim.trim seq
  have htrimmed : ((l.trim seq).trim seq).trimmed = (l.trim seq).trimmed := by
    rw [htrim.trimmed_trim, h.trimmed_trim]
    omega
  have hbuffer : ((l.trim seq).trim seq).buffer = (l.trim seq).buffer := by
    rw [hagain.buffer_eq, htrim.buffer_eq, htrimmed]
  show OutboundLog.mk ((l.trim seq).trim seq).buffer ((l.trim seq).trim seq).trimmed _ = l.trim seq
  rw [hbuffer, htrimmed]

theorem RefinesHistory.of_refines {H : List Msg} {l : OutboundLog} {trims : Trims}
    (h : l.Refines H) (hnum : History.Numbered ChannelMessage.seq? H)
    (htrimmed : l.trimmed = trims.greatest) : RefinesHistory l H trims where
  trimmed_eq := htrimmed
  buffer_eq := htrimmed ▸ h.buffer_eq
  seq_eq := by
    intro i m hm
    rw [h.buffer_eq, List.getElem?_drop] at hm
    exact hnum _ m hm
  after_eq := by
    intro seq
    rw [h.after_eq, htrimmed, ← List.drop_zero (l := H)]
    rw [hnum.filter_drop 0 (max seq trims.greatest)
      (p := fun m => m.seq?.any (max seq trims.greatest < ·))
      (fun m _ k hk => by rw [hk, Option.any_some])]
    simp
  trim_le := by
    intro seq
    rw [h.trimmed_trim]
    exact le_max_left _ _
  trim_mono := by
    intro seq seq' hle
    rw [h.trimmed_trim, h.trimmed_trim]
    omega
  trim_idem := h.trim_idem

/-- **The log refines an append-only history.** In every run, every log is what its history and its
trims say, the watch channel carries the history's length unless a push is under way, and Exit
ends the history. -/
theorem refines_history {logs : List Incarnation} (h : historyMachine.Reachable logs)
    {i : Nat} {x : Incarnation} (hx : logs[i]? = some x) :
    RefinesHistory x.log x.history x.trims ∧
      (x.running.publishing = none → x.log.latest = x.history.length) ∧
      ExitLast x.running.session := by
  have hok := history_ok h i x hx
  have hwf := hok.running.wf
  have hsettled : RefinesHistory x.running.settled.log x.history x.trims :=
    .of_refines hok.refines hwf.logged.numbered hok.trimmed
  have hexit : ExitLast x.running.settled := exitLast_of_wf hwf
  refine ⟨⟨hsettled.trimmed_eq, hsettled.buffer_eq, hsettled.seq_eq, hsettled.after_eq,
    hsettled.trim_le, hsettled.trim_mono, ?_⟩, ?_, hexit⟩
  · intro seq
    have hidem := congrArg (fun l => l.publish x.log.latest) (hsettled.trim_idem seq)
    exact hidem
  · intro hnone
    have := hok.refines.latest_eq
    rwa [Running.settled_of_none hnone] at this

/-- A chunk is trimmed before it is published, a second one is handed over before the client
acknowledges it, and the next daemon's task ends the session. -/
def handedRun : List HistoryLabel :=
  [.start true false (.pipe 0) (.pipe 1) (.pipe 2) (.pipe 3) 42,
    .task 0 (.outputRead .out (.data [104])), .trim 0 7, .publish 0,
    .task 0 (.outputRead .err (.data [105])), .publish 0, .input 0 .handover, .task 0 .recv,
    .trim 0 2, .restore 0 fun _ => none, .after 1 0, .task 1 (.outputRead .out .eof),
    .task 1 (.exitRead .eof), .task 1 (.outputRead .err .eof), .publish 1]

def handedLogs : List Incarnation := (historyMachine.run [] handedRun).get (by decide)

theorem handedLogs_refine_history : ∃ x, handedLogs[1]? = some x ∧
    x.log = ⟨[.stderr 2 [105], .exit 3 255], 1, 3⟩ ∧ x.trims = [(7, 1)] ∧
    x.history = [.stdout 1 [104], .stderr 2 [105], .exit 3 255] ∧
    RefinesHistory x.log x.history x.trims ∧
    (x.running.publishing = none → x.log.latest = x.history.length) ∧
    ExitLast x.running.session := by
  have hx : handedLogs[1]? = some (handedLogs.get ⟨1, by decide⟩) := by decide
  have hreach : historyMachine.Reachable handedLogs :=
    Machine.reachable_of_run rfl (Option.some_get _).symm
  exact ⟨_, hx, by decide, by decide, by decide, refines_history hreach hx⟩

end HerdrEternal
