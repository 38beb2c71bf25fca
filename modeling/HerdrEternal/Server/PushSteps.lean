import HerdrEternal.Server.HandoverInv

/-!
# The two steps of a push

`OutboundLog::push` of `server/src/lib.rs` appends under the lock of the log, and publishes the new
number on the watch channel after the lock is released. In between, a connection can read the log,
trim it, or find the watch channel as it was.

`Running` is a session whose task may be between the two steps. A step of the task logs at most one
message, and publishing it is the last thing the step does that others can see (`logs_once`). So
the step is cut in two there: `task` does all of it but leaves the number to be published behind,
and `publish` publishes it.

**Refinement.** `settled` publishes what is left to be published. A step of the cut task is a step
of `session_task` between settled sessions (`task_settled`), and publishing is no step at all
(`publish_settled`). What is proved of `session_task` therefore holds of the cut task.
-/

namespace HerdrEternal

namespace OutboundLog

/-- The part of `push` under the lock: the log, and the number to be published. -/
def append (l : OutboundLog) (message : Msg) : OutboundLog × Nat :=
  let buffer := l.buffer ++ [message]
  ({ l with buffer := buffer }, l.trimmed + buffer.length)

/-- `send_replace` on the watch channel. -/
def publish (l : OutboundLog) (seq : Nat) : OutboundLog := { l with latest := seq }

theorem push_eq (l : OutboundLog) (m : Msg) :
    l.push m = (l.append m).1.publish (l.append m).2 := rfl

theorem trimmed_trim_eq (l : OutboundLog) (seq : Nat) :
    (l.trim seq).trimmed = max l.trimmed (min seq (l.trimmed + l.buffer.length)) := by
  simp only [trim, trimLoop_eq]
  omega

theorem Refines.length_eq {H : List Msg} {l : OutboundLog} (h : l.Refines H) :
    l.trimmed + l.buffer.length = H.length := by
  have := h.trimmed_le
  rw [h.buffer_eq, List.length_drop]
  omega

end OutboundLog

namespace Session

variable {s s' : Session}

/-! ## Exit ends the log -/

theorem Wf.exit_index (h : Wf s) {i seq : Nat} {code : Int32}
    (hi : s.trace.pushed[i]? = some (.exit seq code)) : i + 1 = s.trace.pushed.length := by
  obtain ⟨-, hpushed, -⟩ := h.exit_last hi
  have hlt := (List.getElem?_eq_some_iff.mp hi).1
  have := congrArg List.length hpushed
  simp only [List.length_append, List.length_take, List.length_singleton] at this
  omega

/-- An Exit message carries the length of the history it ends, and its task has returned. -/
theorem Wf.exit_ends (h : Wf s) {seq : Nat} {code : Int32}
    (hmem : ChannelMessage.exit seq code ∈ s.trace.pushed) :
    s.ended = true ∧ s.trace.pushed.length = seq := by
  obtain ⟨i, hi⟩ := List.mem_iff_getElem?.mp hmem
  have hseq : some seq = some (i + 1) := h.logged.numbered i _ hi
  refine ⟨?_, (h.exit_index hi).symm.trans (Option.some.inj hseq).symm⟩
  by_cases hp : s.task.phase = .returned .exited
  · simp [ended, hp]
  · cases h.noExit hp _ hmem

/-! ## A step logs at most one message -/

/-- What a step does to the log. -/
inductive Logs (s s' : Session) : Prop
  | nothing (hlog : s'.log = s.log) (hpushed : s'.trace.pushed = s.trace.pushed)
  | one (m : Msg) (hlog : s'.log = s.log.push m) (hpushed : s'.trace.pushed = s.trace.pushed ++ [m])

theorem Logs.endOfLoop {t : Session} (hlog : t.log = s.log)
    (hpushed : t.trace.pushed = s.trace.pushed) : Logs s t.endOfLoop := by
  rcases t.endOfLoop_cases with heq | ⟨code, -, -, -, heq⟩
  · rw [heq]
    exact .nothing hlog hpushed
  · rw [heq]
    exact .one _ (by rw [← hlog]; rfl) (by rw [← hpushed]; rfl)

theorem Logs.applyStdin {t : Session} (hlog : t.log = s.log)
    (hpushed : t.trace.pushed = s.trace.pushed) (seq : Nat) (data : Data) :
    Logs s (t.applyStdin seq data) := by
  unfold Session.applyStdin
  dsimp only
  split_ifs
  · exact .endOfLoop hlog hpushed
  · exact .nothing hlog hpushed

theorem Logs.onInput {t : Session} (hlog : t.log = s.log)
    (hpushed : t.trace.pushed = s.trace.pushed) (input : SessionInput) :
    Logs s (t.onInput input) := by
  unfold Session.onInput
  split
  · split_ifs
    · exact .applyStdin hlog hpushed _ _
    · exact .endOfLoop hlog hpushed
  · split_ifs
    · exact .applyStdin hlog hpushed _ _
    · exact .endOfLoop hlog hpushed
  · exact .endOfLoop hlog hpushed
  · split_ifs
    · exact .endOfLoop hlog hpushed
    · exact .endOfLoop hlog hpushed
  · exact .endOfLoop hlog hpushed
  · exact .nothing hlog hpushed
  · exact .nothing hlog hpushed

/-- Behind a read that brought data the stream is still open, so the loop goes on without Exit. -/
theorem onOutput_data_log {stream : Stream} {bytes : Data} (hopen : s.streamOpen stream = true) :
    (s.onOutput stream (.data bytes)).log = s.log.push (stream.message (s.task.seq + 1) bytes) ∧
      (s.onOutput stream (.data bytes)).trace.pushed =
        s.trace.pushed ++ [stream.message (s.task.seq + 1) bytes] := by
  show (endOfLoop _).log = _ ∧ (endOfLoop _).trace.pushed = _
  rcases endOfLoop_cases _ with heq | ⟨code, -, hout, herr, -⟩
  · rw [heq]
    exact ⟨rfl, rfl⟩
  · cases stream with
    | out => exact absurd (hopen.symm.trans hout) (by simp)
    | err => exact absurd (hopen.symm.trans herr) (by simp)

theorem Logs.onOutput {stream : Stream} {r : ReadResult} (hopen : s.streamOpen stream = true) :
    Logs s (s.onOutput stream r) := by
  have hclose : Logs s (s.closeStream stream).endOfLoop := by
    cases stream
    · exact .endOfLoop rfl rfl
    · exact .endOfLoop rfl rfl
  cases r with
  | eof => exact hclose
  | error => exact hclose
  | data bytes =>
    obtain ⟨hlog, hpushed⟩ :
        (s.onOutput stream (.data bytes)).log = s.log.push _ ∧ _ := onOutput_data_log hopen
    exact .one _ hlog hpushed

/-- A step of the task pushes one message or none. -/
theorem logs_once {e : TaskEvent} (hs : s.taskStep e = some s') : Logs s s' := by
  cases TaskStep.of_taskStep hs with
  | output _ hopen => exact .onOutput hopen
  | exit =>
    unfold Session.onExit
    dsimp only
    split_ifs
    · exact .nothing rfl rfl
    · exact .endOfLoop rfl rfl
  | @recv input rest => exact Logs.onInput (s := s) (t := { s with inbound := rest }) rfl rfl _
  | recvNone => exact .nothing rfl rfl
  | wrotePart => exact .nothing rfl rfl
  | wroteAll => exact .endOfLoop rfl rfl
  | writeFailed => exact .endOfLoop rfl rfl
  | reaped => exact .endOfLoop rfl rfl
  | aborted => exact .nothing rfl rfl

end Session

/-! ## The cut task -/

/-- A session, and the number its task has yet to publish. -/
structure Running where
  session : Session
  publishing : Option Nat
  deriving DecidableEq

namespace Running

def setLog (r : Running) (l : OutboundLog) : Running :=
  { r with session := { r.session with log := l } }

/-- A step of the task, short of publishing what it logged. -/
def task (r : Running) (e : TaskEvent) : Option Running :=
  if r.publishing.isSome then none
  else (r.session.taskStep e).map fun s =>
    if s.log.latest = r.session.log.latest then ⟨s, none⟩
    else ⟨{ s with log := s.log.publish r.session.log.latest }, some s.log.latest⟩

def publish (r : Running) : Option Running :=
  r.publishing.map fun seq => ⟨{ r.session with log := r.session.log.publish seq }, none⟩

/-- The session behind the push that is under way. -/
def settled (r : Running) : Session :=
  { r.session with log := r.session.log.publish (r.publishing.getD r.session.log.latest) }

variable {r r' : Running}

/-! ## It refines the task -/

/-- The task's side of a state: the settled session is well formed, and what is yet to be published
is news on the watch channel. -/
structure Ok (r : Running) : Prop where
  wf : r.settled.Wf
  news : ∀ seq, r.publishing = some seq → r.session.log.latest < seq

theorem Ok.of_wf {s : Session} (h : s.Wf) : Ok ⟨s, none⟩ := ⟨h, fun seq hseq => by cases hseq⟩

/-- Between pushes the session is as settled as it gets. -/
theorem settled_of_none (h : r.publishing = none) : r.settled = r.session := by
  unfold settled
  rw [h]
  rfl

/-- **The cut task refines `session_task`.** -/
theorem task_settled {e : TaskEvent} (hs : r.task e = some r') :
    r.publishing = none ∧ r.session.taskStep e = some r'.settled := by
  unfold task at hs
  split_ifs at hs with hp
  obtain ⟨s, hst, hr⟩ := Option.map_eq_some_iff.mp hs
  refine ⟨by simpa using hp, ?_⟩
  rw [hst]
  split_ifs at hr
  · rw [← hr]
    rfl
  · rw [← hr]
    rfl

theorem publish_settled (hs : r.publish = some r') : r'.settled = r.settled := by
  obtain ⟨seq, hseq, rfl⟩ := Option.map_eq_some_iff.mp hs
  unfold settled
  rw [hseq]
  rfl

/-- What the two halves of a push are: `append`, with the number it computed left to publish. -/
theorem task_appends {e : TaskEvent} (h : r.Ok) (hs : r.task e = some r') :
    (r'.publishing = none ∧ r'.session.log = r.session.log ∧
      r'.session.trace.pushed = r.session.trace.pushed) ∨
    ∃ m, (r'.session.log, r'.publishing) =
        ((r.session.log.append m).1, some (r.session.log.append m).2) ∧
      r'.session.trace.pushed = r.session.trace.pushed ++ [m] := by
  unfold task at hs
  split_ifs at hs with hp
  obtain ⟨s, hst, hr⟩ := Option.map_eq_some_iff.mp hs
  have hwf := h.wf
  rw [settled_of_none (Option.not_isSome_iff_eq_none.mp hp)] at hwf
  have href := hwf.logged.refines
  cases Session.logs_once hst with
  | nothing hlog hpushed =>
    rw [if_pos (by rw [hlog])] at hr
    rw [← hr]
    exact .inl ⟨rfl, hlog, hpushed⟩
  | one m hlog hpushed =>
    have hnew : s.log.latest = r.session.log.latest + 1 := by
      rw [hlog, (href.push m).latest_eq, href.latest_eq]
      simp
    rw [if_neg (by omega)] at hr
    rw [← hr]
    refine .inr ⟨m, ?_, hpushed⟩
    show (s.log.publish r.session.log.latest, some s.log.latest) = _
    rw [hlog]
    rfl

/-! ## The log between the steps -/

theorem Ok.numbered (h : r.Ok) :
    History.Numbered ChannelMessage.seq? r.session.trace.pushed :=
  h.wf.logged.numbered

/-- The log a connection reads is a window on the history, whatever has been published of it. -/
theorem Ok.after_eq (h : r.Ok) (seq : Nat) :
    r.session.log.after seq = r.session.trace.pushed.drop (max seq r.session.log.trimmed) :=
  h.wf.logged.refines.after_eq seq

/-- The published number is the length of the history, or its successor is on the way. -/
theorem Ok.latest_le (h : r.Ok) :
    r.session.log.latest ≤ r.session.trace.pushed.length := by
  have hlatest : r.publishing.getD r.session.log.latest = r.session.trace.pushed.length :=
    h.wf.logged.refines.latest_eq
  cases hp : r.publishing with
  | none =>
    rw [hp] at hlatest
    exact hlatest.le
  | some seq =>
    rw [hp] at hlatest
    exact (h.news seq hp).le.trans hlatest.le

theorem Ok.latest_eq (h : r.Ok) (hp : r.publishing = none) :
    r.session.log.latest = r.session.trace.pushed.length := by
  have hlatest := h.wf.logged.refines.latest_eq
  rwa [settled_of_none hp] at hlatest

/-! ## Steps keep the record -/

theorem Ok.task {e : TaskEvent} (h : r.Ok) (hs : r.task e = some r') : r'.Ok where
  wf := by
    obtain ⟨hp, hst⟩ := task_settled hs
    exact Session.Wf.taskStep (settled_of_none hp ▸ h.wf) hst
  news := by
    intro seq hseq
    have hwf := h.wf
    rw [settled_of_none (task_settled hs).1] at hwf
    have href := hwf.logged.refines
    rcases task_appends h hs with ⟨hnone, -, -⟩ | ⟨m, heq, -⟩
    · rw [hnone] at hseq
      cases hseq
    · rw [Prod.mk.injEq] at heq
      rw [heq.2, Option.some.injEq] at hseq
      rw [heq.1, ← hseq]
      have := (href.push m).latest_eq
      show r.session.log.latest < (r.session.log.push m).latest
      rw [this, href.latest_eq]
      simp

theorem Ok.publish (h : r.Ok) (hs : r.publish = some r') : r'.Ok where
  wf := by rw [publish_settled hs]; exact h.wf
  news := by
    obtain ⟨seq, -, rfl⟩ := Option.map_eq_some_iff.mp hs
    intro n hn
    cases hn

theorem Ok.trim (h : r.Ok) (seq : Nat) : (r.setLog (r.session.log.trim seq)).Ok where
  wf := h.wf.trimLog seq
  news := h.news

theorem Ok.enqueue (h : r.Ok) (input : SessionInput) :
    Ok { r with session := r.session.enqueue input } where
  wf := h.wf.enqueue input
  news := h.news

theorem Ok.unregister (h : r.Ok) : Ok { r with session := r.session.unregister } where
  wf := h.wf.unregister
  news := h.news

end Running

end HerdrEternal
