import HerdrEternal.Server.HandoverInv
import HerdrEternal.System.Host

/-!
# Stdin in the fd store

Restarts go through the fd store of the service manager. This file follows the session and the
child's stdin through them.

* `Ok`: the session stays well formed, and the reply to a handover request describes it.
* `stdin_stays_closed`: a `StdinEof` reaches the child, and stdin stays closed through all later
  restarts, in every run in which no `StdinEof` is taken while the store has the write end of stdin.
  A daemon that is shut down with stdin open leaves it there, and the store keeps it: then the child
  never sees end of file, and the next daemon opens stdin again (`stored_stdin_reopens`).
-/

namespace HerdrEternal

open History Session

/-! ## Names in the store -/

/-- The store holds pipe ends of the session only. -/
def StoreNamed (token : String) (store : List (String × Fd)) : Prop :=
  ∀ nf ∈ store, ∃ role, nf.1 = fdName token role

theorem fdName_inj {token : String} {role role' : Role} (h : fdName token role = fdName token role') :
    role = role' := by
  have h' := congrArg rsplitOnce h
  rw [rsplitOnce_fdName token role'] at h'
  exact (rsplitOnce_fdName_iff.mp h').2

section

variable {token : String} {store : List (String × Fd)} {role : Role}

theorem StoreNamed.append_fds (h : StoreNamed token store) (fds : List (Role × Fd)) :
    StoreNamed token (store ++ fds.map fun (role, fd) => (fdName token role, fd)) := by
  intro nf hnf
  rcases List.mem_append.mp hnf with hnf | hnf
  · exact h nf hnf
  · obtain ⟨⟨role, fd⟩, -, rfl⟩ := List.mem_map.mp hnf
    exact ⟨role, rfl⟩

theorem StoreNamed.filter (h : StoreNamed token store) (p : String × Fd → Bool) :
    StoreNamed token (store.filter p) :=
  fun nf hnf => h nf (List.mem_filter.mp hnf).1

theorem mem_of_fdFor {fd : Fd} (h : StoreNamed token store) (hfd : fdFor store token role = some fd) :
    (fdName token role, fd) ∈ store := by
  unfold fdFor at hfd
  obtain ⟨⟨name, fd'⟩, hlast, rfl⟩ := Option.map_eq_some_iff.mp hfd
  have hmem := List.mem_filter.mp (List.mem_of_getLast? hlast)
  obtain ⟨role', hname⟩ := h _ hmem.1
  have hsplit := of_decide_eq_true hmem.2
  dsimp only at hname hsplit
  rw [hname] at hsplit
  obtain ⟨-, rfl⟩ := rsplitOnce_fdName_iff.mp hsplit
  rw [← hname]
  exact hmem.1

theorem notMem_of_fdFor_none (hnone : fdFor store token role = none) (fd : Fd) :
    (fdName token role, fd) ∉ store := by
  intro hmem
  unfold fdFor at hnone
  rw [Option.map_eq_none_iff, List.getLast?_eq_none_iff, List.filter_eq_nil_iff] at hnone
  exact hnone _ hmem (decide_eq_true (rsplitOnce_fdName token role))

end

namespace Host

variable {token : String} {x y : Host}

/-! ## The session through restarts -/

/-- What the reply of a session says of it, also when the log is trimmed afterwards. -/
structure Answered (s : Session) (r : SessionHandover) : Prop where
  fds : r.fds = openFds s.task
  exitCode : r.state.exitCode = s.task.exitCode
  log : (OutboundLog.restore r.state.trimmed r.state.buffer).Refines s.trace.pushed

/-- The session is well formed, and so is the reply it gave. -/
structure Ok (token : String) (x : Host) : Prop where
  wf : x.session.Wf
  answered : ∀ r, x.session.replied = some r → Answered x.session r
  stopped : x.stopped = true → x.session.replied ≠ none
  named : StoreNamed token x.store

theorem ok_start (agent : Bool) (pgid : Int32) (cap : Role → Nat) :
    Ok token (start agent pgid cap) where
  wf := wf_start _ _ _ _ _ _ _
  answered := fun _ h => by cases h
  stopped := fun h => by cases h
  named := fun _ h => absurd h List.not_mem_nil

/-- The daemon is up when its task takes a step. -/
theorem Ok.up (h : Ok token x) {e : TaskEvent} {s : Session} (hs : x.session.taskStep e = some s) :
    x.stopped = false := by
  cases hstop : x.stopped with
  | false => rfl
  | true =>
    obtain ⟨r, hr⟩ := Option.ne_none_iff_exists'.mp (h.stopped hstop)
    rw [taskStep_of_ended (ended_of_replied hr)] at hs
    cases hs

/-- A step of the task keeps the session well formed. -/
theorem Ok.task (h : Ok token x) {e : TaskEvent} {s : Session} (hs : x.session.taskStep e = some s)
    (hy : y.session = s) (hstop : y.stopped = x.stopped) (hstore : y.store = x.store) :
    Ok token y := by
  have hwf := h.wf.taskStep hs
  subst hy
  refine ⟨hwf, ?_, ?_, hstore ▸ h.named⟩
  · intro r hr
    obtain ⟨-, -, -, rfl⟩ := taskStep_replied hs hr
    exact ⟨rfl, rfl, hwf.logged.refines.restore⟩
  · rw [hstop, h.up hs]
    simp

/-- So does what leaves the task and its history alone. -/
theorem Ok.frame (h : Ok token x) (hwf : y.session.Wf) (htask : y.session.task = x.session.task)
    (htrace : y.session.trace = x.session.trace) (hstop : y.stopped = x.stopped)
    (hstore : StoreNamed token y.store) : Ok token y := by
  have hrep : y.session.replied = x.session.replied := by
    unfold replied
    rw [htask]
  refine ⟨hwf, ?_, ?_, hstore⟩
  · intro r hr
    obtain ⟨hfds, hcode, hlog⟩ := h.answered r (hrep ▸ hr)
    exact ⟨htask ▸ hfds, htask ▸ hcode, htrace ▸ hlog⟩
  · rw [hstop, hrep]
    exact h.stopped

theorem Ok.step {l : HostLabel} (h : Ok token x) (hs : Step token x l y) : Ok token y := by
  cases hs with
  | readData _ _ hs => exact h.task hs rfl rfl rfl
  | readEof _ hs => exact h.task hs rfl rfl rfl
  | exitData _ _ hs => exact h.task hs rfl rfl rfl
  | exitEof _ hs => exact h.task hs rfl rfl rfl
  | recv hs => exact h.task hs rfl rfl rfl
  | write _ _ _ hs => exact h.task hs rfl rfl rfl
  | writeFail _ hs => exact h.task hs rfl rfl rfl
  | reaped _ hs => exact h.task hs rfl rfl rfl
  | input => exact h.frame (h.wf.enqueue _) rfl rfl rfl h.named
  | acked => exact h.frame (h.wf.trimLog _) rfl rfl rfl h.named
  | childRead => exact h.frame h.wf rfl rfl rfl h.named
  | childWrite => exact h.frame h.wf rfl rfl rfl h.named
  | childWrote => exact h.frame h.wf rfl rfl rfl h.named
  | @childClose role =>
    cases role <;> exact h.frame h.wf rfl rfl rfl h.named
  | finish => exact h.frame h.wf rfl rfl rfl h.named
  | kill => exact h.frame h.wf rfl rfl rfl h.named
  | shutDown hr =>
    refine ⟨h.wf, h.answered, fun _ => ?_, h.named.append_fds _⟩
    rw [hr]
    simp
  | discard => exact h.frame h.wf rfl rfl rfl (h.named.filter _)
  | @restart r hr =>
    refine ⟨?_, (fun _ h => by cases h), by simp, h.named⟩
    refine h.wf.restore (r := { r.state with forwardAgent := x.session.agent }) ?_
      (h.answered r hr).log _
    rw [phase_of_replied hr]
    simp

/-! ## Stdin -/

/-- Once a `StdinEof` was applied, nobody but the child holds its stdin: the task's end is closed,
and the store has none. -/
def StdinClosed (token : String) (x : Host) : Prop :=
  x.eofApplied = true →
    x.session.task.stdin = none ∧ ∀ nf ∈ x.store, nf.1 ≠ fdName token .stdin

/-- No `StdinEof` is taken while the store has the write end of stdin. -/
def eofUnstored (token : String) (x : Host) : HostLabel → Bool
  | .recv => !takesEof x.session || x.store.all (·.1 ≠ fdName token .stdin)
  | _ => true

theorem stdin_of_takesEof {s s' : Session} (ht : takesEof s = true)
    (hs : s.taskStep .recv = some s') : s'.task.stdin = none := by
  cases TaskStep.of_taskStep hs with
  | @recv input rest hp hq =>
    unfold takesEof at ht
    rw [hq] at ht
    split at ht
    · rename_i seq heq
      cases heq
      show (if acceptStream seq s.task.lastClientSeq then _ else _ : Session).task.stdin = none
      rw [if_pos ht]
      exact stdin_applyEof _ _
    · cases ht

theorem StdinClosed.task (h : StdinClosed token x) {e : TaskEvent} {s : Session}
    (hs : x.session.taskStep e = some s) (hy : y.session = s) (hstore : y.store = x.store)
    (heof : y.eofApplied = x.eofApplied) : StdinClosed token y := by
  subst hy
  intro happ
  obtain ⟨hnone, hclean⟩ := h (heof ▸ happ)
  refine ⟨?_, hstore ▸ hclean⟩
  rcases stdin_taskStep hs with hsame | hclosed
  · rw [hsame, hnone]
  · exact hclosed

theorem StdinClosed.frame (h : StdinClosed token x) (htask : y.session.task = x.session.task)
    (hstore : y.store = x.store) (heof : y.eofApplied = x.eofApplied) : StdinClosed token y := by
  intro happ
  rw [htask, hstore]
  exact h (heof ▸ happ)

theorem StdinClosed.step {l : HostLabel} (h : StdinClosed token x) (hok : Ok token x)
    (hc : eofUnstored token x l = true) (hs : Step token x l y) : StdinClosed token y := by
  cases hs with
  | readData _ _ hs => exact h.task hs rfl rfl rfl
  | readEof _ hs => exact h.task hs rfl rfl rfl
  | exitData _ _ hs => exact h.task hs rfl rfl rfl
  | exitEof _ hs => exact h.task hs rfl rfl rfl
  | recv hs =>
    intro happ
    by_cases htakes : takesEof x.session = true
    · refine ⟨stdin_of_takesEof htakes hs, ?_⟩
      simpa [eofUnstored, htakes] using hc
    · have hbefore : x.eofApplied = true := by simpa [htakes] using happ
      obtain ⟨hnone, hclean⟩ := h hbefore
      refine ⟨?_, hclean⟩
      rcases stdin_taskStep hs with hsame | hclosed
      · exact hsame.trans hnone
      · exact hclosed
  | write _ _ _ hs => exact h.task hs rfl rfl rfl
  | writeFail _ hs => exact h.task hs rfl rfl rfl
  | reaped _ hs => exact h.task hs rfl rfl rfl
  | input => exact h.frame rfl rfl rfl
  | acked => exact h.frame rfl rfl rfl
  | childRead => exact h.frame rfl rfl rfl
  | childWrite => exact h.frame rfl rfl rfl
  | childWrote => exact h.frame rfl rfl rfl
  | @childClose role => cases role <;> exact h.frame rfl rfl rfl
  | finish => exact h.frame rfl rfl rfl
  | kill => exact h.frame rfl rfl rfl
  | shutDown hr =>
    -- A closed stdin is not among the fds that are pushed.
    intro happ
    obtain ⟨hnone, hclean⟩ := h happ
    refine ⟨hnone, fun nf hnf => ?_⟩
    rcases List.mem_append.mp hnf with hnf | hnf
    · exact hclean nf hnf
    · obtain ⟨⟨role, fd⟩, hmem, rfl⟩ := List.mem_map.mp hnf
      rw [(hok.answered _ hr).fds] at hmem
      intro heq
      cases fdName_inj heq
      rw [mem_openFds, show x.session.task.openEnd .stdin = none from hnone] at hmem
      cases hmem
  | discard =>
    intro happ
    obtain ⟨hnone, hclean⟩ := h happ
    exact ⟨hnone, fun nf hnf => hclean nf (List.mem_filter.mp hnf).1⟩
  | restart hr =>
    intro happ
    obtain ⟨-, hclean⟩ := h happ
    refine ⟨?_, hclean⟩
    cases hfd : fdFor x.store token .stdin with
    | none => exact hfd
    | some fd => exact absurd rfl (hclean _ (mem_of_fdFor hok.named hfd))

/-- **Stdin stays closed**, if no `StdinEof` is taken while the store has its write end. -/
theorem stdin_stays_closed
    (h : (machine token).Under (fun x l => eofUnstored token x l = true) x) :
    StdinClosed token x := by
  have hinv : Ok token x ∧ StdinClosed token x := by
    refine h.invariant (P := fun x => Ok token x ∧ StdinClosed token x) ?_ ?_
    · rintro x ⟨agent, pgid, cap, rfl⟩
      exact ⟨ok_start _ _ _, fun h => by cases h⟩
    · rintro x l y ⟨hok, hx⟩ hc hs
      have hs := Step.of_step hs
      exact ⟨hok.step hs, hx.step hok hc hs⟩
  exact hinv.2

theorem not_stdinClosed_of_recv {l : HostLabel} (hc : eofUnstored token x l = false)
    (hs : Step token x l y) : ¬ StdinClosed token y := by
  intro hclosed
  cases hs with
  | recv hs =>
    simp only [eofUnstored, Bool.or_eq_false_iff, Bool.not_eq_false'] at hc
    have hclean := (hclosed (by simp [hc.1])).2
    have hall : x.store.all (·.1 ≠ fdName token .stdin) = true := by simpa using hclean
    rw [hall] at hc
    cases hc.2
  | _ => cases hc

/-- A fresh session. -/
def fresh : Host := start false 7 fun _ => 4

theorem init_fresh : (machine "t").init fresh := ⟨false, 7, fun _ => 4, rfl⟩

def eofRun : List HostLabel := [.input (.message (.stdinEof 1)), .recv]

def restartRun : List HostLabel := [.input .handover, .recv, .shutDown, .restart]

/-- The client ends its stdin, and the daemon is restarted afterwards. -/
def eofThenRestart : Host :=
  ((machine "t").runIf (eofUnstored "t") fresh (eofRun ++ restartRun)).get (by decide)

/-- The daemon is restarted with stdin open. The command closes its stdin, so the store drops the
write end, before the client ends its side and the daemon is restarted again. -/
def eofBetweenRestarts : Host :=
  ((machine "t").runIf (eofUnstored "t") fresh
    (restartRun ++ [.childClose .stdin, .discard .stdin] ++ eofRun ++ restartRun)).get (by decide)

theorem eofThenRestart_closed :
    (eofThenRestart.eofApplied = true ∧ StdinClosed "t" eofThenRestart) ∧
    eofBetweenRestarts.eofApplied = true ∧ StdinClosed "t" eofBetweenRestarts := by
  have hfirst : (machine "t").Under (fun x l => eofUnstored "t" x l = true) eofThenRestart :=
    Machine.under_of_runIf (.init init_fresh) (Option.some_get _).symm
  have hlast : (machine "t").Under (fun x l => eofUnstored "t" x l = true) eofBetweenRestarts :=
    Machine.under_of_runIf (.init init_fresh) (Option.some_get _).symm
  exact ⟨⟨by decide, stdin_stays_closed hfirst⟩, by decide, stdin_stays_closed hlast⟩

/-- The daemon is restarted, and the client ends its stdin afterwards. -/
def restartThenEof : Host := ((machine "t").run fresh (restartRun ++ eofRun)).get (by decide)

/-- And then the daemon is restarted once more. -/
def reopened : Host := ((machine "t").run restartThenEof restartRun).get (by decide)

/-- The store keeps the write end of the child's stdin after `StdinEof`, and hands it to the next
daemon. -/
theorem stored_stdin_reopens :
    (machine "t").Reachable restartThenEof ∧ (machine "t").Reachable reopened ∧
    ¬ StdinClosed "t" restartThenEof ∧ ¬ StdinClosed "t" reopened ∧
    reopened.session.task.stdin = some (.pipe 0) := by
  have h1 : (machine "t").Reachable restartThenEof :=
    Machine.reachable_of_run init_fresh (Option.some_get _).symm
  have h2 : (machine "t").Reachable reopened :=
    Machine.under_of_run h1 (fun _ _ _ => trivial) (Option.some_get _).symm
  refine ⟨h1, h2, fun h => ?_, fun h => ?_, by decide⟩
  · exact (h (by decide)).2 ("t.stdin", .pipe 0) (by decide) (by decide)
  · exact absurd (h (by decide)).1 (by decide)

end Host

end HerdrEternal
