import HerdrEternal.System.Host

/-!
# The task behind the child's stdin

The task writes a stdin chunk inside its loop and does nothing else until the chunk is in the
pipe. While the child does not read, the task neither reads the child's output nor takes another
input.

* `task_responsive`: in every run in which each chunk fits the stdin pipe when the task takes it,
  the task gets to unread output and to queued requests without the child reading its stdin.
* `stuck_behind_stdin`: with a full pipe, no step of the task is enabled; the child can at the same
  time be stuck on a full stdout (`task_wedged`).
-/

namespace HerdrEternal

open Session

namespace Host

variable {token : String} {x y : Host}

/-! ## What the task owes -/

/-- The task is in its loop: it has not ended, and is not killing the command. -/
def InLoop (x : Host) : Prop :=
  x.session.task.phase = .select ∨ (∃ rest, x.session.task.phase = .writing rest) ∨
    x.session.task.phase = .reaping

/-- There is output in the pipe that the task reads a stream from. -/
def Unread (x : Host) (stream : Stream) : Prop :=
  x.session.task.output stream ≠ .drained ∧ (x.pipes stream.role).bytes ≠ []

/-- A request waits in the queue. -/
def Asked (x : Host) : Prop := .abort ∈ x.session.inbound ∨ .handover ∈ x.session.inbound

/-- How far the task is from the end of its queue. -/
def distance (x : Host) : Nat :=
  2 * x.session.inbound.length + match x.session.task.phase with
    | .writing _ | .reaping => 1
    | _ => 0

/-- The task can get to what waits for it by steps of its own. -/
structure Responsive (token : String) (x : Host) : Prop where
  /-- It reads the output. -/
  output : ∀ stream, x.InLoop → x.Unread stream →
    ∃ ls y, (∀ l ∈ ls, l.isTask = true) ∧ (machine token).run x ls = some y ∧
      (y.pipes stream.role).bytes.length < (x.pipes stream.role).bytes.length
  /-- It gets closer to the request. -/
  request : x.InLoop → x.Asked →
    ∃ l y, l.isTask = true ∧ x.step token l = some y ∧ y.distance < x.distance
  /-- It is not stuck together with the command. -/
  notStuck : ∀ rest stream, x.session.task.phase = .writing rest → (x.pipes .stdin).held = true →
    (x.pipes .stdin).free = 0 → x.pending stream ≠ [] → (x.pipes stream.role).free ≠ 0

/-- Each chunk fits the stdin pipe when the task takes it. -/
def ChunkFits (x : Host) (l : HostLabel) : Prop :=
  l = .recv → (x.pipes .stdin).held = true →
    x.session.nextChunk.length ≤ (x.pipes .stdin).free

/-- The invariant of such runs. -/
structure Flowing (x : Host) : Prop where
  closed : ∀ stream, x.session.io.isOpen stream = false →
    x.AtEnd stream.role (x.session.io.fd stream)
  exit : (x.pipes .exit).held = false ∨ (x.pipes .exit).bytes ≠ [] → x.wrapper ≠ .running
  parent : x.session.io.child = true → x.session.io.exit ≠ .drained
  reaping : x.session.task.phase = .reaping → x.wrapper ≠ .running
  fits : ∀ rest, x.session.task.phase = .writing rest →
    rest ≠ [] ∧ ((x.pipes .stdin).held = true → rest.length ≤ (x.pipes .stdin).free)

theorem flowing_start (agent : Bool) (pgid : Int32) (cap : Role → Nat) :
    Flowing (start agent pgid cap) where
  closed := by
    intro stream h
    cases stream <;> cases h
  exit := by
    rintro (h | h)
    · cases h
    · exact absurd rfl h
  parent := fun _ h => by cases h
  reaping := fun h => by cases h
  fits := fun _ h => by cases h

/-! ## Steps keep the invariant -/

theorem AtEnd.mono {role : Role} {fd : Fd} (h : x.AtEnd role fd)
    (hp : (x.pipes role).bytes = [] → (x.pipes role).held = false →
      (y.pipes role).bytes = [] ∧ (y.pipes role).held = false) : y.AtEnd role fd := by
  rcases h with hd | ⟨hb, hheld⟩
  · exact .inl hd
  · exact .inr (hp hb hheld)

/-- Steps that leave the task, the reading side and its pipes alone, and make no less room in the
stdin pipe. -/
theorem Flowing.frame (h : Flowing x) (hio : y.session.io = x.session.io)
    (hphase : y.session.task.phase = x.session.task.phase)
    (hpipes : ∀ role, role ≠ .stdin → y.pipes role = x.pipes role)
    (hheld : (y.pipes .stdin).held = (x.pipes .stdin).held)
    (hfree : (x.pipes .stdin).free ≤ (y.pipes .stdin).free) (hwrap : y.wrapper = x.wrapper) :
    Flowing y where
  closed := by
    intro stream hc
    rw [hio] at hc ⊢
    refine (h.closed stream hc).mono fun hb hh => ?_
    rw [hpipes stream.role stream.role_ne_stdin]
    exact ⟨hb, hh⟩
  exit := by
    rw [hpipes .exit (by simp), hwrap]
    exact h.exit
  parent := by
    rw [hio]
    exact h.parent
  reaping := by
    rw [hphase, hwrap]
    exact h.reaping
  fits := by
    intro rest hp
    rw [hphase] at hp
    obtain ⟨hne, hfits⟩ := h.fits rest hp
    refine ⟨hne, fun hh => ?_⟩
    rw [hheld] at hh
    exact (hfits hh).trans hfree

theorem Flowing.task (h : Flowing x) {e : TaskEvent} (hs : x.session.taskStep e = some y.session)
    (hio : x.session.io.step e = x.session.io) (he : ∀ r, e ≠ .exitRead r)
    (hpipes : ∀ role, role ≠ .stdin → y.pipes role = x.pipes role) (hwrap : y.wrapper = x.wrapper)
    (hfits : ∀ rest, y.session.task.phase = .writing rest →
      rest ≠ [] ∧ ((y.pipes .stdin).held = true → rest.length ≤ (y.pipes .stdin).free)) :
    Flowing y where
  closed := by
    intro stream hc
    rw [io_taskStep hs, hio] at hc ⊢
    refine (h.closed stream hc).mono fun hb hh => ?_
    rw [hpipes stream.role stream.role_ne_stdin]
    exact ⟨hb, hh⟩
  exit := by
    rw [hpipes .exit (by simp), hwrap]
    exact h.exit
  parent := by
    rw [io_taskStep hs, hio]
    exact h.parent
  reaping := by
    intro hp
    obtain ⟨-, r, rfl, -⟩ := reaping_taskStep hs hp
    exact absurd rfl (he r)
  fits := hfits

/-- A step of the task that reads. It leaves the task in its loop, or waiting for the wrapper. -/
theorem Flowing.read (h : Flowing x) {e : TaskEvent} (hs : x.session.taskStep e = some y.session)
    (hrecv : e ≠ .recv) (hwrote : ∀ n, e ≠ .stdinWritten n)
    (hfd : (x.session.io.step e).exit = x.session.io.exit)
    (hchild : (x.session.io.step e).child = x.session.io.child)
    (hclosed : ∀ stream, (x.session.io.step e).isOpen stream = false →
      y.AtEnd stream.role ((x.session.io.step e).fd stream))
    (hexit : (y.pipes .exit).held = false ∨ (y.pipes .exit).bytes ≠ [] → y.wrapper ≠ .running)
    (hreaping : ∀ r, e = .exitRead r → x.session.io.child = true → y.wrapper ≠ .running) :
    Flowing y where
  closed := by
    rw [io_taskStep hs]
    exact hclosed
  exit := hexit
  parent := by
    rw [io_taskStep hs, hfd, hchild]
    exact h.parent
  reaping := by
    intro hp
    obtain ⟨hchild, r, he, -⟩ := reaping_taskStep hs hp
    exact hreaping r he hchild
  fits := by
    intro rest hp
    rcases writing_taskStep hs hp with ⟨he, -⟩ | ⟨all, n, he, -⟩
    · exact absurd he hrecv
    · exact absurd he (hwrote n)

theorem Flowing.process (h : Flowing x) (hsess : y.session = x.session)
    (hend : ∀ stream : Stream, (x.pipes stream.role).bytes = [] →
      (x.pipes stream.role).held = false →
        (y.pipes stream.role).bytes = [] ∧ (y.pipes stream.role).held = false)
    (hexit : (y.pipes .exit).held = false ∨ (y.pipes .exit).bytes ≠ [] → y.wrapper ≠ .running)
    (hwrap : x.wrapper ≠ .running → y.wrapper ≠ .running)
    (hstdin : (y.pipes .stdin).held = true → y.pipes .stdin = x.pipes .stdin) : Flowing y where
  closed := by
    intro stream hc
    rw [hsess] at hc ⊢
    exact (h.closed stream hc).mono (hend stream)
  exit := hexit
  parent := by
    rw [hsess]
    exact h.parent
  reaping := by
    rw [hsess]
    exact fun hp => hwrap (h.reaping hp)
  fits := by
    intro rest hp
    rw [hsess] at hp
    obtain ⟨hne, hfits⟩ := h.fits rest hp
    refine ⟨hne, fun hh => ?_⟩
    have heq := hstdin hh
    rw [heq] at hh ⊢
    exact hfits hh

/-- The wrapper is gone, and only the exit pipe is changed with it. -/
theorem Flowing.ends (h : Flowing x) {p : Pipe} (hsess : y.session = x.session)
    (hpipes : y.pipes = (x.setPipe .exit p).pipes) (hwrap : y.wrapper ≠ .running) : Flowing y := by
  refine h.process hsess ?_ (fun _ => hwrap) (fun _ => hwrap) (fun _ => ?_)
  · intro stream hb hh
    rw [hpipes, pipes_setPipe_of_ne stream.exit_ne_role.symm]
    exact ⟨hb, hh⟩
  · rw [hpipes]
    exact pipes_setPipe_of_ne (show Role.stdin ≠ .exit by simp) x p

theorem Flowing.readData (h : Flowing x) {stream : Stream} {s : Session} {n : Nat}
    (hfd : x.session.task.output stream ≠ .drained) (hne : (x.pipes stream.role).bytes ≠ [])
    (hs : x.session.taskStep
      (.outputRead stream (.data ((x.pipes stream.role).bytes.take n))) = some s) :
    Flowing ((x.setPipe stream.role { x.pipes stream.role with
      bytes := (x.pipes stream.role).bytes.drop n }).setSession s) := by
  refine h.read hs (by simp) (by simp) rfl rfl ?_ ?_ (by simp)
  · intro stream' hc
    have hend := h.closed stream' hc
    have hstream : stream' ≠ stream := by
      rintro rfl
      rcases hend with hd | ⟨hb, -⟩
      · exact hfd hd
      · exact hne hb
    refine hend.mono fun hb hh => ?_
    rw [pipes_setSession, pipes_setPipe_of_ne (Stream.role_injective.ne hstream)]
    exact ⟨hb, hh⟩
  · rw [pipes_setSession, pipes_setPipe_of_ne stream.exit_ne_role]
    exact h.exit

theorem Flowing.readEof (h : Flowing x) {stream : Stream} {s : Session}
    (hend : x.AtEnd stream.role (x.session.task.output stream))
    (hs : x.session.taskStep (.outputRead stream .eof) = some s) :
    Flowing (x.setSession s) := by
  refine h.read hs (by simp) (by simp) rfl rfl ?_ h.exit (by simp)
  intro stream' hc
  by_cases heq : stream' = stream
  · exact heq ▸ hend
  · exact h.closed stream' ((Function.update_of_ne heq ..).symm.trans hc)

theorem Flowing.step {l : HostLabel} (h : Flowing x) (hc : ChunkFits x l) (hs : Step token x l y) :
    Flowing y := by
  cases hs with
  | readData hfd hne hs => exact h.readData hfd hne hs
  | readEof hend hs => exact h.readEof hend hs
  | exitData hfd hne hs =>
    have hrun := h.exit (.inr hne)
    refine h.read hs (by simp) (by simp) rfl rfl ?_ (fun _ => hrun) (fun _ _ _ => hrun)
    intro stream hclosed
    refine (h.closed stream hclosed).mono fun hb hh => ?_
    rw [pipes_setSession, pipes_setPipe_of_ne stream.exit_ne_role.symm]
    exact ⟨hb, hh⟩
  | exitEof hend hs =>
    refine h.read hs (by simp) (by simp) rfl rfl h.closed h.exit (fun r _ hchild => ?_)
    rcases hend with hd | ⟨-, hheld⟩
    · exact absurd hd (h.parent hchild)
    · exact h.exit (.inl hheld)
  | recv hs =>
    refine h.task hs rfl (by simp) (fun _ _ => rfl) rfl ?_
    intro rest hp
    rcases writing_taskStep hs hp with ⟨-, rfl, hne⟩ | ⟨_, _, he, -⟩
    · exact ⟨hne, hc rfl⟩
    · cases he
  | @write all n s hp hheld hfree hs =>
    refine h.task hs rfl (by simp) (fun _ hne => pipes_setPipe_of_ne hne _ _) rfl ?_
    intro rest hp'
    rcases writing_taskStep hs hp' with ⟨he, -⟩ | ⟨all', n', he, hp'', rfl, hlt⟩
    · cases he
    · cases he
      cases hp.symm.trans hp''
      have hfits := (h.fits all hp).2 hheld
      refine ⟨fun hnil => ?_, fun _ => ?_⟩
      · rw [List.drop_eq_nil_iff] at hnil
        omega
      · rw [pipes_setSession, pipes_setPipe_self]
        simp only [Pipe.free, Pipe.write, List.length_drop, List.length_append, List.length_take]
          at hfits ⊢
        omega
  | writeFail hheld hs =>
    refine h.task hs rfl (by simp) (fun _ _ => rfl) rfl ?_
    intro rest hp
    rcases writing_taskStep hs hp with ⟨he, -⟩ | ⟨_, _, he, -⟩ <;> cases he
  | reaped _ hs =>
    refine h.task hs rfl (by simp) (fun _ _ => rfl) rfl ?_
    intro rest hp
    rcases writing_taskStep hs hp with ⟨he, -⟩ | ⟨_, _, he, -⟩ <;> cases he
  | input => exact h.frame rfl rfl (fun _ _ => rfl) rfl le_rfl rfl
  | acked => exact h.frame rfl rfl (fun _ _ => rfl) rfl le_rfl rfl
  | @childRead n =>
    refine h.frame rfl rfl (fun _ hne => pipes_setPipe_of_ne hne _ _) ?_ ?_ rfl
    · rw [pipes_setPipe_self]
    · rw [pipes_setPipe_self]
      simp only [Pipe.free, List.length_drop]
      omega
  | childWrite => exact h.frame rfl rfl (fun _ _ => rfl) rfl le_rfl rfl
  | @childWrote stream n hheld =>
    refine h.process rfl ?_ ?_ id ?_
    · intro stream' hb hh
      have hne : stream' ≠ stream := by
        rintro rfl
        rw [hheld] at hh
        cases hh
      show ((x.setPipe _ _).pipes _).bytes = [] ∧ ((x.setPipe _ _).pipes _).held = false
      rw [pipes_setPipe_of_ne (Stream.role_injective.ne hne)]
      exact ⟨hb, hh⟩
    · show ((x.setPipe _ _).pipes _).held = false ∨ ((x.setPipe _ _).pipes _).bytes ≠ [] → _
      rw [pipes_setPipe_of_ne stream.exit_ne_role]
      exact h.exit
    · intro _
      exact pipes_setPipe_of_ne stream.role_ne_stdin.symm _ _
  | @childClose role hrole =>
    have hpipes : ((x.setPipe role (x.pipes role).hangUp).childLeaves role).pipes =
        (x.setPipe role (x.pipes role).hangUp).pipes := by cases role <;> rfl
    have hsess : ((x.setPipe role (x.pipes role).hangUp).childLeaves role).session = x.session := by
      cases role <;> rfl
    have hwrap : ((x.setPipe role (x.pipes role).hangUp).childLeaves role).wrapper = x.wrapper := by
      cases role <;> rfl
    refine h.process hsess ?_ ?_ (hwrap ▸ id) ?_
    · intro stream hb hh
      rw [hpipes]
      by_cases heq : stream.role = role
      · subst heq
        rw [pipes_setPipe_self]
        exact ⟨hb, rfl⟩
      · rw [pipes_setPipe_of_ne heq]
        exact ⟨hb, hh⟩
    · rw [hpipes, hwrap, pipes_setPipe_of_ne hrole.symm]
      exact h.exit
    · intro hh
      rw [hpipes] at hh ⊢
      by_cases heq : Role.stdin = role
      · subst heq
        rw [pipes_setPipe_self] at hh
        cases hh
      · rw [pipes_setPipe_of_ne heq]
  | finish => exact h.ends rfl rfl (by simp)
  | kill => exact h.ends rfl rfl (by simp)
  | shutDown => exact h.frame rfl rfl (fun _ _ => rfl) rfl le_rfl rfl
  | discard => exact h.frame rfl rfl (fun _ _ => rfl) rfl le_rfl rfl
  | restart =>
    refine ⟨fun stream hclosed => ?_, h.exit, (fun h => by cases h), (fun h => by cases h),
      fun _ h => by cases h⟩
    cases stream <;> cases hclosed

/-! ## Getting to what waits -/

/-- The reading side is as it was: the pipes of the output streams, and what the task reads from
them. -/
structure SameSide (x y : Host) : Prop where
  io : y.session.io = x.session.io
  pipes : ∀ stream : Stream, y.pipes stream.role = x.pipes stream.role

theorem select_endOfLoop {s : Session} {stream : Stream} (h : s.streamOpen stream = true) :
    s.endOfLoop.task.phase = .select := by
  rcases s.endOfLoop_cases with heq | ⟨code, -, hout, herr, -⟩
  · rw [heq]
    rfl
  · cases stream
    · exact absurd h (by rw [show s.streamOpen .out = false from hout]; simp)
    · exact absurd h (by rw [show s.streamOpen .err = false from herr]; simp)

theorem taskStep_writeAll {s : Session} {rest : Data} (hp : s.task.phase = .writing rest)
    (hne : rest ≠ []) : s.taskStep (.stdinWritten rest.length) =
      some { s with trace := { s.trace with wrote := s.trace.wrote ++ rest } }.finishWrite := by
  unfold taskStep
  rw [hp]
  simp [List.length_pos_iff, hne]

theorem taskStep_writeFail {s : Session} {rest : Data} (hp : s.task.phase = .writing rest) :
    s.taskStep .stdinFailed = some (s.setTask { s.task with stdin := none }).finishWrite := by
  unfold taskStep
  rw [hp]

theorem taskStep_reaped {s : Session} (hp : s.task.phase = .reaping) :
    s.taskStep .reaped = some s.endOfLoop := by
  unfold taskStep
  rw [hp]

theorem task_eq {e : TaskEvent} {s : Session} (hs : x.session.taskStep e = some s) :
    x.task e = some (x.setSession s) := by
  unfold task
  rw [hs]
  rfl

theorem step_write {rest : Data} {n : Nat} {s : Session} (hp : x.session.task.phase = .writing rest)
    (hheld : (x.pipes .stdin).held = true) (hfree : n ≤ (x.pipes .stdin).free)
    (hs : x.session.taskStep (.stdinWritten n) = some s) : x.step token (.write n) =
      some ((x.setPipe .stdin ((x.pipes .stdin).write (rest.take n))).setSession s) := by
  simp only [step, hp, hheld, Bool.true_and, decide_eq_true_eq, if_pos hfree]
  exact task_eq hs

theorem step_writeFail {s : Session} (hheld : (x.pipes .stdin).held = false)
    (hs : x.session.taskStep .stdinFailed = some s) :
    x.step token .writeFail = some (x.setSession s) := by
  simp only [step, hheld, Bool.false_eq_true, if_false]
  exact task_eq hs

theorem step_reaped {s : Session} (hw : x.wrapper ≠ .running)
    (hs : x.session.taskStep .reaped = some s) : x.step token .reaped = some (x.setSession s) := by
  simp only [step, if_neg hw]
  exact task_eq hs

/-- A task that is busy in its loop can finish what it does by a step of its own. It is then at
the end of its loop body. -/
theorem Flowing.finishes (h : Flowing x) (token : String) (hloop : x.InLoop)
    (hbusy : x.session.task.phase ≠ .select) :
    ∃ (l : HostLabel) (y : Host) (s : Session), l.isTask = true ∧ x.step token l = some y ∧
      y.session = s.endOfLoop ∧ SameSide x y ∧ s.inbound = x.session.inbound ∧
      s.io = x.session.io := by
  rcases hloop with hp | ⟨rest, hp⟩ | hp
  · exact absurd hp hbusy
  · obtain ⟨hne, hfits⟩ := h.fits rest hp
    cases hheld : (x.pipes .stdin).held with
    | true =>
      have htask := taskStep_writeAll hp hne
      refine ⟨.write rest.length, _, _, rfl, step_write hp hheld (hfits hheld) htask, rfl,
        ⟨io_taskStep htask, ?_⟩, rfl, rfl⟩
      intro stream
      exact pipes_setPipe_of_ne stream.role_ne_stdin _ _
    | false =>
      have htask := taskStep_writeFail hp
      exact ⟨.writeFail, _, _, rfl, step_writeFail hheld htask, rfl,
        ⟨io_taskStep htask, fun _ => rfl⟩, rfl, rfl⟩
  · have htask := taskStep_reaped hp
    exact ⟨.reaped, _, _, rfl, step_reaped (h.reaping hp) htask, rfl,
      ⟨io_taskStep htask, fun _ => rfl⟩, rfl, rfl⟩

/-- A task that waits in its loop reads what is there. -/
theorem reads (token : String) {stream : Stream} (hp : x.session.task.phase = .select)
    (hopen : x.session.streamOpen stream = true) (hunread : x.Unread stream) :
    ∃ y, x.step token (.read stream) = some y ∧
      (y.pipes stream.role).bytes.length < (x.pipes stream.role).bytes.length := by
  obtain ⟨hfd, hne⟩ := hunread
  obtain ⟨id, hid⟩ : ∃ id, x.session.task.output stream = .pipe id := by
    cases hfd' : x.session.task.output stream with
    | pipe id => exact ⟨id, rfl⟩
    | drained => exact absurd hfd' hfd
  have hpos : 0 < (x.pipes stream.role).bytes.length := List.length_pos_iff.mpr hne
  have hfits : readFits STDIO_BUF (.data ((x.pipes stream.role).bytes.take STDIO_BUF)) = true := by
    simp only [readFits, STDIO_BUF, List.length_take, Bool.and_eq_true, decide_eq_true_eq]
    omega
  have htask : x.session.taskStep
      (.outputRead stream (.data ((x.pipes stream.role).bytes.take STDIO_BUF))) =
        some (x.session.onOutput stream (.data ((x.pipes stream.role).bytes.take STDIO_BUF))) := by
    unfold taskStep
    rw [hp]
    exact if_pos (by rw [hopen, hfits]; rfl)
  refine ⟨(x.setPipe stream.role { x.pipes stream.role with
      bytes := (x.pipes stream.role).bytes.drop STDIO_BUF }).setSession
    (x.session.onOutput stream (.data ((x.pipes stream.role).bytes.take STDIO_BUF))), ?_, ?_⟩
  · simp only [step, hid, readFd, Pipe.read, if_pos hne, Option.map_some, Option.bind_some]
    exact task_eq htask
  · rw [pipes_setSession, pipes_setPipe_self]
    simp only [List.length_drop, STDIO_BUF]
    omega

/-- There is nothing to read any more where the task has seen the end of a stream. -/
theorem Flowing.open_of_unread (h : Flowing x) {stream : Stream} (hunread : x.Unread stream) :
    x.session.streamOpen stream = true := by
  cases hopen : x.session.streamOpen stream with
  | true => rfl
  | false =>
    rcases h.closed stream hopen with hd | ⟨hb, -⟩
    · exact absurd hd hunread.1
    · exact absurd hb hunread.2

theorem Flowing.output (h : Flowing x) (stream : Stream) (hloop : x.InLoop)
    (hunread : x.Unread stream) :
    ∃ ls y, (∀ l ∈ ls, l.isTask = true) ∧ (machine token).run x ls = some y ∧
      (y.pipes stream.role).bytes.length < (x.pipes stream.role).bytes.length := by
  have hopen := h.open_of_unread hunread
  by_cases hp : x.session.task.phase = .select
  · obtain ⟨y, hy, hlt⟩ := reads token hp hopen hunread
    refine ⟨[.read stream], y, by simp [HostLabel.isTask], ?_, hlt⟩
    simp [Machine.run, machine, hy]
  · obtain ⟨l, y, s, hl, hy, hsess, hsame, -, hio⟩ := h.finishes token hloop hp
    have hstream : s.streamOpen stream = true := by
      rw [← hopen]
      exact congrFun (congrArg Io.isOpen hio) stream
    have hfd : y.session.task.output stream = x.session.task.output stream :=
      congrFun (congrArg Io.fd hsame.io) stream
    have hunread' : y.Unread stream := ⟨hfd ▸ hunread.1, (hsame.pipes stream) ▸ hunread.2⟩
    have hopen' : y.session.streamOpen stream = true :=
      (congrFun (congrArg Io.isOpen hsame.io) stream).trans hopen
    obtain ⟨z, hz, hlt⟩ := reads token (hsess ▸ select_endOfLoop hstream) hopen' hunread'
    refine ⟨[l, .read stream], z, List.forall_mem_cons.mpr ⟨hl, by simp [HostLabel.isTask]⟩, ?_, ?_⟩
    · simp [Machine.run, machine, hy, hz]
    · rw [← hsame.pipes stream]
      exact hlt

theorem inbound_onInput {s : Session} (input : SessionInput) :
    (s.onInput input).inbound <:+ s.inbound := by
  refine Framed.onInput (R := fun t => t.inbound <:+ s.inbound) ⟨?_, ?_, ?_, ?_, ?_⟩
    List.suffix_rfl input
  · exact fun _ h => h
  · exact fun _ h => h
  · exact fun hq h => hq.trans h
  · exact fun _ h => h
  · exact fun _ _ _ h => h

theorem inbound_endOfLoop (s : Session) : s.endOfLoop.inbound = s.inbound := by
  rcases s.endOfLoop_cases with heq | ⟨code, -, -, -, heq⟩
  · rw [heq]
    rfl
  · rw [heq]
    rfl

theorem distance_of_atRest (h : AtRest x.session) :
    x.distance = 2 * x.session.inbound.length := by
  unfold distance
  split
  · exact absurd ‹_› (h.1 _)
  · exact absurd ‹_› h.2
  · rfl

theorem distance_le (x : Host) : x.distance ≤ 2 * x.session.inbound.length + 1 := by
  unfold distance
  split <;> omega

theorem Flowing.request (h : Flowing x) (hloop : x.InLoop) (hasked : x.Asked) :
    ∃ l y, l.isTask = true ∧ x.step token l = some y ∧ y.distance < x.distance := by
  by_cases hp : x.session.task.phase = .select
  · -- The next input is taken.
    obtain ⟨input, rest, hq⟩ : ∃ input rest, x.session.inbound = input :: rest := by
      cases hq : x.session.inbound with
      | nil => rcases hasked with h | h <;> exact absurd (hq ▸ h) List.not_mem_nil
      | cons input rest => exact ⟨input, rest, rfl⟩
    have htask : x.session.taskStep .recv =
        some ({ x.session with inbound := rest }.onInput input) := by
      unfold taskStep
      rw [hp, hq]
    refine ⟨.recv, _, rfl, task_eq htask, ?_⟩
    have hlen : ({ x.session with inbound := rest }.onInput input).inbound.length ≤ rest.length :=
      (inbound_onInput input).length_le
    calc _ ≤ 2 * ({ x.session with inbound := rest }.onInput input).inbound.length + 1 :=
          distance_le _
      _ < 2 * x.session.inbound.length := by
          rw [hq, List.length_cons]
          omega
      _ = x.distance := (distance_of_atRest (atRest_of_phase hp (by simp) (by simp))).symm
  · -- What the task is doing is finished.
    obtain ⟨l, y, s, hl, hy, hsess, -, hin, -⟩ := h.finishes token hloop hp
    refine ⟨l, y, hl, hy, ?_⟩
    have hrest : AtRest y.session := hsess ▸ atRest_endOfLoop s
    have hx : x.distance = 2 * x.session.inbound.length + 1 := by
      unfold distance
      rcases hloop with hp' | ⟨rest, hp'⟩ | hp'
      · exact absurd hp' hp
      · rw [hp']
      · rw [hp']
    rw [distance_of_atRest hrest, hsess, inbound_endOfLoop, hin, hx]
    omega

/-! ## Runs -/

/-- **The task does not get stuck behind its child's stdin**, in every run in which each chunk fits
the pipe when the task takes it. -/
theorem task_responsive (h : (machine token).Under ChunkFits x) : Responsive token x := by
  have hinv : Flowing x := by
    refine h.invariant ?_ ?_
    · rintro x ⟨agent, pgid, cap, rfl⟩
      exact flowing_start _ _ _
    · intro x l y hx hc hs
      exact hx.step hc (Step.of_step hs)
  refine ⟨hinv.output, hinv.request, fun rest stream hp hheld hfull _ => ?_⟩
  obtain ⟨hne, hfits⟩ := hinv.fits rest hp
  have hpos : 0 < rest.length := List.length_pos_iff.mpr hne
  have := hfits hheld
  omega

/-- A fresh session whose pipes hold one byte. -/
def tight : Host := start false 7 fun _ => 1

theorem init_tight : (machine "t").init tight := ⟨false, 7, fun _ => 1, rfl⟩

/-- A chunk arrives that fits. -/
def chunkQueued : Host := ((machine "t").step tight (.input (.message (.stdin 1 [105])))).get (by decide)

def chunkTaken : Host := ((machine "t").step chunkQueued .recv).get (by decide)

/-- The command writes more than its stdout holds, and a handover is requested. -/
def askedRun : List HostLabel :=
  [.childWrite .out [104, 33], .childWrote .out 1, .input .handover]

def chunkAsked : Host := ((machine "t").run chunkTaken askedRun).get (by decide)

theorem chunkAsked_responsive :
    chunkAsked.session.task.phase = .writing [105] ∧ chunkAsked.session.inbound = [.handover] ∧
    (chunkAsked.pipes .stdout).bytes = [104] ∧ Responsive "t" chunkAsked := by
  have hqueued : (machine "t").Under ChunkFits chunkQueued :=
    Machine.Under.step (l := .input (.message (.stdin 1 [105]))) (.init init_tight)
      (fun h => by cases h)
      (Option.some_get _).symm
  have htaken : (machine "t").Under ChunkFits chunkTaken :=
    hqueued.step (fun _ _ => by decide) (Option.some_get _).symm
  have hasked : (machine "t").Under ChunkFits chunkAsked :=
    Machine.under_of_run htaken (fun _ _ hl heq => absurd (heq ▸ hl) (by decide))
      (Option.some_get _).symm
  exact ⟨by decide, by decide, by decide, task_responsive hasked⟩

/-- With a full stdin pipe that somebody still holds, a task in a write has no step. -/
theorem stuck_behind_stdin {rest : Data} (hp : x.session.task.phase = .writing rest)
    (hheld : (x.pipes .stdin).held = true) (hfull : (x.pipes .stdin).free = 0) {l : HostLabel}
    (hl : l.isTask = true) : x.step token l = none := by
  cases hstep : x.step token l with
  | none => rfl
  | some y =>
    have hno : ∀ {e s}, x.session.taskStep e = some s →
        (∃ n, e = .stdinWritten n ∧ 0 < n) ∨ e = .stdinFailed := by
      intro e s hs
      cases TaskStep.of_taskStep hs with
      | wrotePart _ hpos => exact .inl ⟨_, rfl, hpos⟩
      | wroteAll _ hpos => exact .inl ⟨_, rfl, hpos⟩
      | writeFailed => exact .inr rfl
      | output hp' => cases hp.symm.trans hp'
      | exit hp' => cases hp.symm.trans hp'
      | recv hp' => cases hp.symm.trans hp'
      | recvNone hp' => cases hp.symm.trans hp'
      | reaped hp' => cases hp.symm.trans hp'
      | aborted hp' => cases hp.symm.trans hp'
    cases Step.of_step hstep with
    | readData _ _ hs => rcases hno hs with ⟨_, he, -⟩ | he <;> cases he
    | readEof _ hs => rcases hno hs with ⟨_, he, -⟩ | he <;> cases he
    | exitData _ _ hs => rcases hno hs with ⟨_, he, -⟩ | he <;> cases he
    | exitEof _ hs => rcases hno hs with ⟨_, he, -⟩ | he <;> cases he
    | recv hs => rcases hno hs with ⟨_, he, -⟩ | he <;> cases he
    | reaped _ hs => rcases hno hs with ⟨_, he, -⟩ | he <;> cases he
    | write _ _ hfree hs =>
      rcases hno hs with ⟨n, he, hpos⟩ | he
      · cases he
        omega
      · cases he
    | writeFail hfalse =>
      rw [hheld] at hfalse
      cases hfalse
    | input => cases hl
    | acked => cases hl
    | childRead => cases hl
    | childWrite => cases hl
    | childWrote => cases hl
    | childClose => cases hl
    | finish => cases hl
    | kill => cases hl
    | shutDown => cases hl
    | discard => cases hl
    | restart => cases hl

/-- The chunk is longer than the pipe, and the command writes instead of reading. -/
def wedged : Host :=
  ((machine "t").run tight ([.input (.message (.stdin 1 [105, 106])), .recv, .write 1] ++ askedRun)).get
    (by decide)

/-- The task waits for the command to read its stdin, and the command waits for the task to read
its stdout. Nobody serves the request. -/
theorem task_wedged :
    (machine "t").Reachable wedged ∧ wedged.session.task.phase = .writing [106] ∧
    (wedged.pipes .stdin).free = 0 ∧ wedged.pending .out = [33] ∧ (wedged.pipes .stdout).free = 0 ∧
    (∀ l : HostLabel, l.isTask = true → wedged.step "t" l = none) ∧ ¬ Responsive "t" wedged := by
  have hreach : (machine "t").Reachable wedged :=
    Machine.reachable_of_run init_tight (Option.some_get _).symm
  have hp : wedged.session.task.phase = .writing [106] := by decide
  have hstuck : ∀ l : HostLabel, l.isTask = true → wedged.step "t" l = none :=
    fun l => stuck_behind_stdin hp (by decide) (by decide)
  refine ⟨hreach, hp, by decide, by decide, by decide, hstuck, fun h => ?_⟩
  obtain ⟨l, y, hl, hy, -⟩ := h.request (.inr (.inl ⟨_, hp⟩)) (.inr (by decide))
  rw [hstuck l hl] at hy
  cases hy

end Host

end HerdrEternal
