import HerdrEternal.System.Replay

/-!
# A session that dies under its clients

`attach` has an exit for a session task that ended without an Exit message: `latest.changed()`
returns an error once every sender of the watch channel is gone. The one sender sits in the log, the
log in the session, and every running `attach` call holds the session. So the error cannot come
while there is anybody to see it (`senderGone_disabled`).

Clients learn of such an end only if none of them is there: no call waits in its `select!` when the
task ends, and none gets there afterwards (`endsUnwatched`). A call that waits with everything sent
is not told (`never_learns`).
-/

namespace HerdrEternal

namespace Session

/-- The task has returned without logging Exit. -/
def endedSilently (s : Session) : Bool :=
  match s.task.phase with
  | .returned .exited => false
  | .returned _ => true
  | _ => false

/-- A step with which the task returns without logging Exit: it takes an Abort or a request for the
handover, or finds that nobody holds the session; as the wrapper's parent it reaps it first. -/
def endsSilently (s : Session) (e : TaskEvent) : Bool :=
  match s.task.phase, e with
  | .select, .recv =>
    match s.inbound.head? with
    | some .abort => !s.task.child
    | some .handover => true
    | _ => false
  | .select, .recvNone => !s.task.child
  | .aborting, .reaped => true
  | _, _ => false

variable {s s' : Session}

theorem endedSilently_of_task (h : s'.task = s.task) : s'.endedSilently = s.endedSilently := by
  unfold endedSilently
  rw [h]

theorem endedSilently_endOfLoop (s : Session) : s.endOfLoop.endedSilently = false := by
  rcases s.endOfLoop_cases with heq | ⟨code, -, -, -, heq⟩
  · rw [heq]
    rfl
  · rw [heq]
    rfl

theorem endedSilently_applyStdin (s : Session) (seq : Nat) (data : Data) :
    (s.applyStdin seq data).endedSilently = false := by
  unfold applyStdin
  dsimp only
  split_ifs
  · exact endedSilently_endOfLoop _
  · rfl

theorem endedSilently_abort (s : Session) : s.abort.endedSilently = !s.task.child := by
  cases hchild : s.task.child <;> simp [abort, setTask, endedSilently, hchild]

theorem endedSilently_onInput (s : Session) (input : SessionInput) :
    (s.onInput input).endedSilently = match input with
      | .abort => !s.task.child
      | .handover => true
      | _ => false := by
  unfold onInput
  split
  · split_ifs
    · exact endedSilently_applyStdin _ _ _
    · exact endedSilently_endOfLoop _
  · split_ifs
    · exact endedSilently_applyStdin _ _ _
    · exact endedSilently_endOfLoop _
  · exact endedSilently_endOfLoop _
  · split_ifs
    · exact endedSilently_endOfLoop _
    · exact endedSilently_endOfLoop _
  · exact endedSilently_endOfLoop _
  · rfl
  · exact endedSilently_abort s

/-- The steps of `endsSilently` are the ones that end the task without Exit. -/
theorem endedSilently_taskStep {e : TaskEvent} (hs : s.taskStep e = some s') :
    s'.endedSilently = s.endsSilently e := by
  cases TaskStep.of_taskStep hs with
  | @output stream r hp =>
    have hends : s.endsSilently (.outputRead stream r) = false := by simp [endsSilently, hp]
    rw [hends]
    cases r with
    | data bytes => exact endedSilently_endOfLoop _
    | eof => exact endedSilently_endOfLoop _
    | error => exact endedSilently_endOfLoop _
  | @exit r hp =>
    have hends : s.endsSilently (.exitRead r) = false := by simp [endsSilently, hp]
    rw [hends]
    unfold onExit
    dsimp only
    split_ifs
    · rfl
    · exact endedSilently_endOfLoop _
  | @recv input rest hp hq =>
    rw [endedSilently_onInput]
    unfold endsSilently
    rw [hp, hq]
    cases input <;> rfl
  | recvNone hp hq =>
    rw [endedSilently_abort]
    unfold endsSilently
    rw [hp]
  | wrotePart hp => simp [endsSilently, hp, endedSilently]
  | @wroteAll rest hp =>
    have hends : s.endsSilently (.stdinWritten rest.length) = false := by simp [endsSilently, hp]
    rw [hends]
    exact endedSilently_endOfLoop _
  | writeFailed hp =>
    have hends : s.endsSilently .stdinFailed = false := by simp [endsSilently, hp]
    rw [hends]
    exact endedSilently_endOfLoop _
  | reaped hp =>
    have hends : s.endsSilently .reaped = false := by simp [endsSilently, hp]
    rw [hends]
    exact endedSilently_endOfLoop _
  | aborted hp => simp [endsSilently, hp, endedSilently, setTask]

end Session

namespace Serving

/-! ## The property -/

/-- The loop is parked with nothing left to send. -/
def Drained (x : Serving) (c : Attached) : Prop :=
  c.attach.pc = .select ∧ x.session.log.after c.attach.sentUpTo = []

/-- A drained loop of a session that died without Exit can take its SessionAborted exit. -/
def LearnsEnd (x : Serving) : Prop :=
  ∀ (i : Nat) (c : Attached), x.conns[i]? = some c → x.session.endedSilently = true →
    x.Drained c → (x.step (.senderGone i)).isSome = true

variable {x x' : Serving}

/-- Every attach call that runs is suspended in a send. -/
def allInSend (x : Serving) : Bool := x.conns.all fun c => !c.running || c.attach.inSend

/-- When the task ends without Exit, every call that runs is suspended in a send; and no send of a
call completes after that. -/
def endsUnwatched (x : Serving) : ServingLabel → Bool
  | .task e => !x.session.endsSilently e || x.allInSend
  | .lose => x.allInSend
  | .conn _ e => !(x.session.endedSilently && e = .sent)
  | _ => true

/-! ## Nobody is left waiting -/

theorem allInSend_iff : x.allInSend = true ↔
    x.Each fun c => c.running = true → c.attach.inSend = true := by
  rw [allInSend, List.all_eq_true]
  constructor
  · intro h i c hget hrun
    simpa [hrun] using h c (List.mem_of_getElem? hget)
  · intro h c hmem
    obtain ⟨i, hget⟩ := List.mem_iff_getElem?.mp hmem
    cases hrun : c.running with
    | false => rfl
    | true => exact h i c hget hrun

theorem running_of_step {c : Attached} {s s' : Session} {e : AttachEvent} {a : Attach}
    (ha : c.attach.step c.quic s e = some (a, s')) : c.running = true := by
  refine decide_eq_true fun hret => ?_
  simp [Attach.step, hret] at ha

/-- A call that is suspended in a send goes on or leaves with it. -/
theorem left_of_inSend {quic : Bool} {a a' : Attach} {s s' : Session} {e : AttachEvent}
    (ha : a.step quic s e = some (a', s')) (hin : a.inSend = true) (hne : e ≠ .sent) :
    a' = a.return_ := by
  have hsel : a.pc ≠ .select := by
    intro hp
    simp [Attach.inSend, hp] at hin
  cases Attach.Step.of_step ha with
  | started => exact absurd rfl hne
  | snapshot hp => simp [Attach.inSend, hp] at hin
  | replayed => exact absurd rfl hne
  | acked => exact absurd rfl hne
  | pinged => exact absurd rfl hne
  | sendFailed => rfl
  | expired hp => exact absurd hp hsel
  | tick hp => exact absurd hp hsel
  | changed hp => exact absurd hp hsel
  | delivered hp => exact absurd hp hsel
  | trimmed hp => exact absurd hp hsel
  | frame hp => exact absurd hp hsel
  | datagram hp => exact absurd hp hsel
  | badDatagram hp => exact absurd hp hsel
  | badFrame hp => exact absurd hp hsel
  | closed hp => exact absurd hp hsel
  | failed hp => exact absurd hp hsel

/-- Once the task has ended without Exit, calls are in sends only. -/
theorem allInSend_step {l : ServingLabel} (h : x.session.endedSilently = true → x.allInSend = true)
    (hc : x.endsUnwatched l = true) (hs : x.step l = some x') :
    x'.session.endedSilently = true → x'.allInSend = true := by
  cases Step.of_step hs with
  | @task e r hr =>
    have hsettled : r.session.endedSilently = r.settled.endedSilently :=
      Session.endedSilently_of_task rfl
    have hends : r.session.endedSilently = x.session.endsSilently e :=
      hsettled.trans (Session.endedSilently_taskStep (Running.task_settled hr).2)
    intro hend
    have hend : r.session.endedSilently = true := hend
    rw [hends] at hend
    simp only [endsUnwatched, hend, Bool.not_true, Bool.false_or] at hc
    exact hc
  | publish hr =>
    obtain ⟨seq, -, rfl⟩ := Option.map_eq_some_iff.mp hr
    exact h
  | lose => exact fun _ => hc
  | handover => exact h
  | attach =>
    intro hend
    have hall := h hend
    unfold allInSend at hall ⊢
    rw [List.all_append, hall]
    rfl
  | @conn i e c a s hget ha =>
    intro hend
    have hend : s.endedSilently = true := hend
    rw [Session.endedSilently_of_task (s := x.session) (Attach.Attends.of_step ha).task] at hend
    have hall := allInSend_iff.mp (h hend)
    have hne : e ≠ .sent := by simpa [endsUnwatched, hend] using hc
    have hleft := left_of_inSend ha (hall i c hget (running_of_step ha)) hne
    refine allInSend_iff.mpr (Table.forall_set
      (P := fun _ (c : Attached) => c.running = true → c.attach.inSend = true) hall ?_)
    rw [hleft]
    intro hrun
    cases hrun
  | agentAttach => exact h
  | agentDetach => exact h
  | collect => exact h
  | expire => exact h

theorem allInSend_under (h : machine.Under (fun x l => x.endsUnwatched l = true) x) :
    x.session.endedSilently = true → x.allInSend = true := by
  refine h.invariant (P := fun x => x.session.endedSilently = true → x.allInSend = true) ?_ ?_
  · rintro _ ⟨s, -, -, rfl⟩ -
    rfl
  · exact fun _ _ _ h hc hs => allInSend_step h hc hs

/-- **Clients learn that their session died**, in runs where none of them is there when it does. -/
theorem learns_end (h : machine.Under (fun x l => x.endsUnwatched l = true) x) : x.LearnsEnd := by
  intro i c hget hend hdrained
  have hin := allInSend_iff.mp (allInSend_under h hend) i c hget
    (Attached.running_of_pc hdrained.1 (by simp))
  simp [Attach.inSend, hdrained.1] at hin

/-- The exit for a session that died is never taken, so a drained loop never learns of the end. -/
theorem never_learns {i : Nat} {c : Attached} (hget : x.conns[i]? = some c)
    (hend : x.session.endedSilently = true) (hdrained : x.Drained c) : ¬ x.LearnsEnd := by
  intro h
  have := h i c hget hend hdrained
  rw [senderGone_disabled] at this
  cases this

/-- The client leaves, and the sweep finds its session expired. -/
def abandonedRun : List ServingLabel :=
  [.attach true "t" 0, .conn 0 .sent, .conn 0 .snapshot, .conn 0 .closed, .collect]

/-- The client comes back, but its connection is dead again: `Started` is still being sent when the
session is aborted, and the send fails afterwards. -/
def abandoned : Serving :=
  (machine.runIf (fun x l => x.endsUnwatched l) (start fresh)
    (abandonedRun ++
      [.attach true "t" 0, .expire, .task .recv, .task .reaped, .conn 1 .sendFailed])).get
    (by decide)

theorem abandoned_learns_end :
    machine.Under (fun x l => x.endsUnwatched l = true) abandoned ∧
    abandoned.session.endedSilently = true ∧
    abandoned.conns.map Attached.running = [false, false] ∧ abandoned.LearnsEnd := by
  have hunder : machine.Under (fun x l => x.endsUnwatched l = true) abandoned :=
    Machine.under_of_runIf (.init ⟨_, wf_fresh, rfl, rfl⟩) (Option.some_get _).symm
  exact ⟨hunder, by decide, by decide, learns_end hunder⟩

/-- The client comes back before the sweep gets to its session. -/
def aborted : Serving :=
  (machine.run (start fresh) (abandonedRun ++
    [.attach true "t" 0, .conn 1 .sent, .conn 1 .snapshot, .expire, .task .recv,
      .task .reaped])).get (by decide)

/-- Its call waits for a session that is dead and out of the registry, and is never told. -/
theorem resumed_client_not_told :
    machine.Reachable aborted ∧ aborted.session.task.phase = .returned .aborted ∧
    aborted.session.registered = false ∧
    aborted.conns.map (fun c => (c.attach.pc, aborted.session.log.after c.attach.sentUpTo)) =
      [(.returned, []), (.select, [])] ∧
    ¬ aborted.LearnsEnd := by
  have hget : aborted.conns[1]? = some (aborted.conns.get ⟨1, by decide⟩) := by decide
  refine ⟨?_, by decide, by decide, by decide, ?_⟩
  · exact Machine.reachable_of_run ⟨_, wf_fresh, rfl, rfl⟩ (Option.some_get _).symm
  · exact never_learns hget (by decide) ⟨by decide, by decide⟩

end Serving

end HerdrEternal
