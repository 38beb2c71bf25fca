import HerdrEternal.Server.Handover
import HerdrEternal.Server.SessionInv

/-!
# Pipe ends and sessions on their way to the next daemon

* `fdFor_handoverFds`: every pipe end finds its session and its role, in whatever order they come.
* `Living` is the invariant of a session through the restarts of its daemon: its log keeps the
  record of what was pushed, and no stdin number is taken twice. `Living.run` is the run lemma.
* `reply_isSome_iff`: a session is handed over exactly if its task gets to the request in time.
-/

namespace HerdrEternal

open History

/-! ## Names of pipe ends -/

theorem Role.dot_notMem_name (role : Role) : '.' ∉ role.name.toList := by
  cases role <;> decide

theorem Role.name_inj {r r' : Role} (h : r.name = r'.name) : r = r' := by
  revert h
  cases r <;> cases r' <;> decide

/-- A name splits back into its token and its role, whatever the token is. -/
theorem rsplitOnce_fdName (token : String) (role : Role) :
    rsplitOnce (fdName token role) = some (token, role.name) := by
  have hname : (fdName token role).toList.reverse =
      role.name.toList.reverse ++ '.' :: token.toList.reverse := by
    simp [fdName, String.toList_append]
  have hrole : ∀ c ∈ role.name.toList.reverse, decide (c ≠ '.') = true := by
    intro c hc
    rw [decide_eq_true_eq]
    rintro rfl
    exact role.dot_notMem_name (List.mem_reverse.mp hc)
  have hdrop : (role.name.toList.reverse ++ '.' :: token.toList.reverse).dropWhile
      (fun c => decide (c ≠ '.')) = '.' :: token.toList.reverse := by
    rw [List.dropWhile_append_of_pos hrole]
    rfl
  have htake : (role.name.toList.reverse ++ '.' :: token.toList.reverse).takeWhile
      (fun c => decide (c ≠ '.')) = role.name.toList.reverse := by
    rw [List.takeWhile_append_of_pos hrole]
    simp
  simp only [rsplitOnce, hname, hdrop, htake, List.reverse_reverse, String.ofList_toList]

theorem rsplitOnce_fdName_iff {token token' : String} {role role' : Role} :
    rsplitOnce (fdName token role) = some (token', role'.name) ↔ token = token' ∧ role = role' := by
  rw [rsplitOnce_fdName, Option.some.injEq, Prod.mk.injEq]
  refine and_congr_right fun _ => ⟨Role.name_inj, ?_⟩
  rintro rfl
  rfl

/-! ## Pipe ends come back to their session -/

/-- A session gives back at most one pipe end for each role. -/
theorem filter_openFds (t : Task) (role : Role) :
    (Session.openFds t).filter (fun x => decide (x.1 = role)) =
      (((Session.openFds t).find? fun x => decide (x.1 = role)).toList) := by
  obtain ⟨stdin, stdout, stderr, exit, stdoutOpen, stderrOpen, exitCode, _⟩ := t
  cases stdin <;> cases stdoutOpen <;> cases stderrOpen <;> cases exitCode <;> cases role <;> rfl

/-- The pipe end a task gives back for a role. -/
def Task.openEnd (t : Task) : Role → Option Fd
  | .stdin => t.stdin
  | .stdout => if t.stdoutOpen then some t.stdout else none
  | .stderr => if t.stderrOpen then some t.stderr else none
  | .exit => if t.exitCode.isNone then some t.exit else none

theorem mem_openFds {t : Task} {role : Role} {fd : Fd} :
    (role, fd) ∈ Session.openFds t ↔ t.openEnd role = some fd := by
  cases role with
  | stdin => simp [Session.openFds, Task.openEnd]
  | stdout => simp [Session.openFds, Task.openEnd, @eq_comm _ fd]
  | stderr => simp [Session.openFds, Task.openEnd, @eq_comm _ fd]
  | exit => simp [Session.openFds, Task.openEnd, @eq_comm _ fd]

theorem find?_openFds (t : Task) (role : Role) :
    ((Session.openFds t).find? fun x => decide (x.1 = role)).map (·.2) = t.openEnd role := by
  obtain ⟨stdin, stdout, stderr, exit, stdoutOpen, stderrOpen, exitCode, _⟩ := t
  cases stdin <;> cases stdoutOpen <;> cases stderrOpen <;> cases exitCode <;> cases role <;> rfl

/-- The pipe ends of one session. -/
def sessionFds (token : String) (h : Handing) : List (String × Fd) :=
  h.handed.toList.flatMap fun r => r.fds.map fun (role, fd) => (fdName token role, fd)

theorem filter_sessionFds_self (token : String) (h : Handing) (role : Role) :
    (sessionFds token h).filter (fun nf => decide (rsplitOnce nf.1 = some (token, role.name))) =
      h.handed.toList.flatMap fun r =>
        (r.fds.filter fun x => decide (x.1 = role)).map fun (role, fd) => (fdName token role, fd) := by
  unfold sessionFds
  cases h.handed with
  | none => rfl
  | some r =>
    simp only [Option.toList_some, List.flatMap_singleton, List.filter_map]
    congr 1
    refine List.filter_congr fun x _ => ?_
    simp [rsplitOnce_fdName_iff]

theorem filter_sessionFds_other {token token' : String} (hne : token' ≠ token) (h : Handing)
    (role : Role) :
    (sessionFds token' h).filter
      (fun nf => decide (rsplitOnce nf.1 = some (token, role.name))) = [] := by
  rw [List.filter_eq_nil_iff]
  intro nf hnf
  simp only [sessionFds, List.mem_flatMap, List.mem_map] at hnf
  obtain ⟨r, -, x, -, rfl⟩ := hnf
  simp only [decide_eq_true_eq, rsplitOnce_fdName_iff]
  exact fun hc => hne hc.1

/-- Among all the pipe ends, those for a role of a session are its own. -/
theorem filter_handoverFds {registry : List (String × Handing)}
    (hnd : (registry.map (·.1)).Nodup) {token : String} {h : Handing}
    (hmem : (token, h) ∈ registry) (role : Role) :
    (handoverFds registry).filter
        (fun nf => decide (rsplitOnce nf.1 = some (token, role.name))) =
      (sessionFds token h).filter
        (fun nf => decide (rsplitOnce nf.1 = some (token, role.name))) := by
  induction registry with
  | nil => cases hmem
  | cons x registry ih =>
    obtain ⟨token', h'⟩ := x
    obtain ⟨hnot, hnd⟩ := List.nodup_cons.mp hnd
    show (sessionFds token' h' ++ handoverFds registry).filter _ = _
    rw [List.filter_append]
    rcases List.mem_cons.mp hmem with heq | hmem
    · cases heq
      have hrest : (handoverFds registry).filter
          (fun nf => decide (rsplitOnce nf.1 = some (token, role.name))) = [] := by
        rw [List.filter_eq_nil_iff]
        intro nf hnf
        simp only [handoverFds, List.mem_flatMap, List.mem_map] at hnf
        obtain ⟨⟨token', h'⟩, hx, r, -, y, -, rfl⟩ := hnf
        simp only [decide_eq_true_eq, rsplitOnce_fdName_iff]
        rintro ⟨rfl, -⟩
        exact hnot (List.mem_map.mpr ⟨_, hx, rfl⟩)
      rw [hrest, List.append_nil]
    · have hne : token' ≠ token := by
        rintro rfl
        exact hnot (List.mem_map.mpr ⟨_, hmem, rfl⟩)
      rw [filter_sessionFds_other hne, List.nil_append, ih hnd hmem]

/-- Every pipe end finds its session and its role, in whatever order they come. -/
theorem fdFor_handoverFds {registry : List (String × Handing)}
    (hnd : (registry.map (·.1)).Nodup) {token : String} {h : Handing}
    (hmem : (token, h) ∈ registry) {fds : List (String × Fd)}
    (hperm : fds.Perm (handoverFds registry)) {r : SessionHandover} (hr : h.handed = some r)
    {t : Task} (hfds : r.fds = Session.openFds t) (role : Role) :
    fdFor fds token role = (r.fds.find? fun x => decide (x.1 = role)).map (·.2) := by
  have hfilter := filter_handoverFds hnd hmem role
  rw [filter_sessionFds_self, hr, Option.toList_some, List.flatMap_singleton, hfds,
    filter_openFds] at hfilter
  have hp := hperm.filter fun nf => decide (rsplitOnce nf.1 = some (token, role.name))
  rw [hfilter] at hp
  unfold fdFor
  rw [hfds]
  cases hfind : (Session.openFds t).find? fun x => decide (x.1 = role) with
  | none =>
    rw [hfind] at hp
    rw [List.perm_nil.mp hp]
    rfl
  | some x =>
    rw [hfind] at hp
    rw [List.perm_singleton.mp hp]
    rfl

namespace Session

variable {s s' : Session}

/-! ## The life of a session -/

theorem replied_endOfLoop (s : Session) : s.endOfLoop.replied = none := by
  rcases s.endOfLoop_cases with heq | ⟨code, -, -, -, heq⟩
  · rw [heq]
    rfl
  · rw [heq]
    rfl

theorem replied_applyStdin (s : Session) (seq : Nat) (data : Data) :
    (s.applyStdin seq data).replied = none := by
  unfold applyStdin
  dsimp only
  split_ifs
  · exact replied_endOfLoop _
  · rfl

theorem replied_abort (s : Session) : s.abort.replied = none := by
  unfold abort replied setTask
  dsimp only
  split_ifs <;> rfl

/-- The reply is the state in which the task took the request. -/
theorem onInput_replied {input : SessionInput} {r : SessionHandover}
    (h : (s.onInput input).replied = some r) :
    input = .handover ∧ r = (s.onInput input).handoverReply := by
  have hno : ∀ {t : Session}, t.replied = none → t.replied ≠ some r := by
    intro t ht
    rw [ht]
    simp
  unfold onInput at h ⊢
  split at h
  · split_ifs at h
    · exact absurd h (hno (replied_applyStdin _ _ _))
    · exact absurd h (hno (replied_endOfLoop _))
  · split_ifs at h
    · exact absurd h (hno (replied_applyStdin _ _ _))
    · exact absurd h (hno (replied_endOfLoop _))
  · exact absurd h (hno (replied_endOfLoop _))
  · split_ifs at h
    · exact absurd h (hno (replied_endOfLoop _))
    · exact absurd h (hno (replied_endOfLoop _))
  · exact absurd h (hno (replied_endOfLoop _))
  · cases h
    exact ⟨rfl, rfl⟩
  · exact absurd h (hno (replied_abort _))

theorem taskStep_replied {e : TaskEvent} {r : SessionHandover} (hs : s.taskStep e = some s')
    (hr : s'.replied = some r) :
    e = .recv ∧ s.task.phase = .select ∧ s.inbound.head? = some .handover ∧
      r = s'.handoverReply := by
  have hend : ∀ {t : Session}, t.endOfLoop.replied ≠ some r := by
    intro t
    rw [replied_endOfLoop]
    simp
  cases TaskStep.of_taskStep hs with
  | @output stream res =>
    cases res with
    | data bytes => exact absurd hr hend
    | eof => exact absurd hr hend
    | error => exact absurd hr hend
  | exit =>
    unfold onExit at hr
    dsimp only at hr
    split_ifs at hr
    · cases hr
    · exact absurd hr hend
  | recv hp hq =>
    obtain ⟨rfl, heq⟩ := onInput_replied hr
    exact ⟨rfl, hp, by rw [hq]; rfl, heq⟩
  | recvNone =>
    rw [replied_abort] at hr
    cases hr
  | wrotePart => cases hr
  | wroteAll => exact absurd hr hend
  | writeFailed => exact absurd hr hend
  | reaped => exact absurd hr hend
  | aborted => cases hr

/-- Unless a write is under way, the published number is the last one the task took. -/
def Settled (s : Session) : Prop :=
  (∃ rest, s.task.phase = .writing rest) ∨ s.stdinApplied = s.task.lastClientSeq

theorem Settled.eq (h : Settled s) (hp : ∀ rest, s.task.phase ≠ .writing rest) :
    s.stdinApplied = s.task.lastClientSeq := by
  rcases h with ⟨rest, h⟩ | h
  · exact absurd h (hp rest)
  · exact h

/-- The number of a settled session does not go back. -/
structure Applying (n : Nat) (s : Session) : Prop where
  settled : Settled s
  le_last : n ≤ s.task.lastClientSeq

theorem Applying.endOfLoop {n : Nat} (h : s.stdinApplied = s.task.lastClientSeq)
    (hn : n ≤ s.task.lastClientSeq) : Applying n s.endOfLoop := by
  rcases s.endOfLoop_cases with heq | ⟨code, -, -, -, heq⟩
  · rw [heq]
    exact ⟨.inr h, hn⟩
  · rw [heq]
    exact ⟨.inr h, hn⟩

theorem Applying.onInput {n : Nat} (h : s.stdinApplied = s.task.lastClientSeq)
    (hn : n ≤ s.task.lastClientSeq) (input : SessionInput) : Applying n (s.onInput input) := by
  have hstdin : ∀ seq data, n ≤ seq → Applying n (s.applyStdin seq data) := by
    intro seq data hseq
    unfold Session.applyStdin
    dsimp only
    split_ifs
    · exact Applying.endOfLoop rfl hseq
    · exact ⟨.inl ⟨_, rfl⟩, hseq⟩
  unfold Session.onInput
  split
  · split_ifs with hacc
    · exact hstdin _ _ (hn.trans (decide_eq_true_eq.mp hacc).le)
    · exact Applying.endOfLoop h hn
  · split_ifs with hacc
    · refine hstdin _ _ (hn.trans ?_)
      rw [decide_eq_true_eq.mp hacc]
      exact Nat.le_succ _
    · exact Applying.endOfLoop h hn
  · exact Applying.endOfLoop h hn
  · split_ifs with hacc
    · exact Applying.endOfLoop rfl (hn.trans (decide_eq_true_eq.mp hacc).le)
    · exact Applying.endOfLoop h hn
  · exact Applying.endOfLoop h hn
  · exact ⟨.inr h, hn⟩
  · exact ⟨.inr h, hn⟩

theorem Applying.taskStep {n : Nat} {e : TaskEvent} (h : Applying n s)
    (hs : s.taskStep e = some s') : Applying n s' := by
  have heq : ∀ {p}, s.task.phase = p → (∀ rest, p ≠ .writing rest) →
      s.stdinApplied = s.task.lastClientSeq :=
    fun hp hne => h.settled.eq (hp ▸ hne)
  cases TaskStep.of_taskStep hs with
  | @output stream r hp =>
    have h0 := heq hp (by simp)
    cases r with
    | data bytes => exact Applying.endOfLoop h0 h.le_last
    | eof => cases stream <;> exact Applying.endOfLoop h0 h.le_last
    | error => cases stream <;> exact Applying.endOfLoop h0 h.le_last
  | @exit r hp =>
    have h0 := heq hp (by simp)
    obtain ⟨code, line, ht⟩ := s.task.readExit_eq r
    unfold Session.onExit
    rw [ht]
    dsimp only
    split_ifs
    · exact ⟨.inr h0, h.le_last⟩
    · exact Applying.endOfLoop h0 h.le_last
  | recv hp =>
    apply Applying.onInput
    · exact heq hp (by simp)
    · exact h.le_last
  | recvNone hp => exact ⟨.inr (heq hp (by simp)), h.le_last⟩
  | wrotePart => exact ⟨.inl ⟨_, rfl⟩, h.le_last⟩
  | wroteAll => exact Applying.endOfLoop rfl h.le_last
  | writeFailed => exact Applying.endOfLoop rfl h.le_last
  | reaped hp => exact Applying.endOfLoop (heq hp (by simp)) h.le_last
  | aborted hp => exact ⟨.inr (heq hp (by simp)), h.le_last⟩

/-- The invariant of a session through the restarts of its daemon; `H` was pushed and `n` was
applied at some earlier time. -/
structure Living (H : List Msg) (n : Nat) (s : Session) : Prop where
  wf : s.Wf
  resumable : s.resumable = true
  applying : Applying n s
  pushed : H <+: s.trace.pushed

variable {H : List Msg} {n : Nat}

theorem Living.enqueue (h : Living H n s) (input : SessionInput) : Living H n (s.enqueue input) :=
  ⟨h.wf.enqueue input, h.resumable, ⟨h.applying.settled, h.applying.le_last⟩, h.pushed⟩

theorem Living.event (h : Living H n s) (e : SessionEvent) : Living H n (s.event e) := by
  cases e with
  | task e =>
    show Living H n (if e = .recvNone then s else (s.taskStep e).getD s)
    split_ifs
    · exact h
    · cases hs : s.taskStep e with
      | none => exact h
      | some s' =>
        exact ⟨h.wf.taskStep hs, (Steady.taskStep hs).resumable.trans h.resumable,
          h.applying.taskStep hs, h.pushed.trans (Grows.taskStep hs).pushed⟩
  | message m => exact h.enqueue _
  | datagram m => exact h.enqueue _
  | abort => exact h.enqueue _
  | acked seq =>
    exact ⟨h.wf.trimLog seq, h.resumable, ⟨h.applying.settled, h.applying.le_last⟩, h.pushed⟩

theorem Living.events (h : Living H n s) (es : List SessionEvent) : Living H n (s.events es) := by
  induction es generalizing s with
  | nil => exact h
  | cons e es ih => exact ih (h.event e)

theorem Living.await (h : Living H n s) (es : List SessionEvent) : Living H n (s.await es) := by
  induction es generalizing s with
  | nil => exact h
  | cons e es ih =>
    show Living H n (if s.replied.isSome then s else (s.event e).await es)
    split_ifs
    · exact h
    · exact ih (h.event e)

theorem agent_event (s : Session) (e : SessionEvent) : (s.event e).agent = s.agent := by
  cases e with
  | task e =>
    show (if e = .recvNone then s else (s.taskStep e).getD s).agent = s.agent
    split_ifs
    · rfl
    · cases hs : s.taskStep e with
      | none => rfl
      | some s' => exact (Steady.taskStep hs).agent
  | _ => rfl

theorem agent_await (s : Session) (es : List SessionEvent) : (s.await es).agent = s.agent := by
  induction es generalizing s with
  | nil => rfl
  | cons e es ih =>
    show (if s.replied.isSome then s else (s.event e).await es).agent = s.agent
    split_ifs
    · rfl
    · rw [ih, agent_event]

theorem event_replied {e : SessionEvent} {r : SessionHandover} (hno : s.replied = none)
    (hr : (s.event e).replied = some r) :
    e = .task .recv ∧ s.task.phase = .select ∧ s.inbound.head? = some .handover ∧
      r = (s.event e).handoverReply := by
  have hsame : s.replied ≠ some r := by
    rw [hno]
    simp
  cases e with
  | task e =>
    have heq : s.event (.task e) = if e = .recvNone then s else (s.taskStep e).getD s := rfl
    rw [heq] at hr ⊢
    split_ifs at hr ⊢
    · exact absurd hr hsame
    · cases hs : s.taskStep e with
      | none =>
        rw [hs] at hr
        exact absurd hr hsame
      | some s' =>
        rw [hs] at hr
        obtain ⟨rfl, hp, hq, hreq⟩ := taskStep_replied hs hr
        exact ⟨rfl, hp, hq, hreq⟩
  | message m => exact absurd hr hsame
  | datagram m => exact absurd hr hsame
  | abort => exact absurd hr hsame
  | acked seq => exact absurd hr hsame

/-- The reply `handover_sessions` waits for describes the session as it is when it comes. -/
theorem await_replied {es : List SessionEvent} {r : SessionHandover} (hno : s.replied = none)
    (hr : (s.await es).replied = some r) : r = (s.await es).handoverReply := by
  induction es generalizing s with
  | nil =>
    rw [await, hno] at hr
    cases hr
  | cons e es ih =>
    have heq : s.await (e :: es) = (s.event e).await es := by
      rw [await, hno]
      rfl
    rw [heq] at hr ⊢
    cases hrep : (s.event e).replied with
    | none => exact ih hrep hr
    | some r' =>
      have hstop : (s.event e).await es = s.event e := by
        cases es with
        | nil => rfl
        | cons e' es => rw [await, hrep]; rfl
      rw [hstop] at hr ⊢
      exact (event_replied hno hr).2.2.2

theorem phase_of_replied {r : SessionHandover} (hr : s.replied = some r) :
    s.task.phase = .returned (.handedOver r) := by
  unfold replied at hr
  split at hr
  · cases hr
    assumption
  · cases hr

/-- A restored session is as well formed as the one its record was taken from, whatever pipe ends
it gets. -/
theorem Wf.restore (h : Wf s) (hp : s.task.phase ≠ .returned .exited) {r : SessionRecord}
    (hlog : (OutboundLog.restore r.trimmed r.buffer).Refines s.trace.pushed)
    (fds : Role → Option Fd) : Wf (restoreSession s.trace fds r) :=
  Logged.wf ⟨hlog, h.logged.numbered, h.logged.entry, hlog.latest_eq, h.logged.read_eq⟩
    (h.noExit hp) (fun h => by cases h)

theorem Living.reborn (h : Living H n s) {r : SessionHandover} (hr : s.replied = some r)
    (heq : r = s.handoverReply) : Living s.trace.pushed s.task.lastClientSeq (s.reborn r) := by
  have hphase : s.task.phase ≠ .returned .exited := by
    rw [phase_of_replied hr]
    simp
  subst heq
  exact ⟨h.wf.restore hphase h.wf.logged.refines.restore _, rfl, ⟨.inr rfl, le_rfl⟩,
    List.prefix_rfl⟩

/-! ## Sessions whose task has ended -/

theorem taskStep_of_ended {e : TaskEvent} (h : s.ended = true) : s.taskStep e = none := by
  unfold ended at h
  split at h
  · rename_i how hp
    unfold taskStep
    rw [hp]
  · cases h

/-- Nothing but acks changes a session whose task has ended, as far as its log is concerned. -/
structure Rests (s s' : Session) : Prop where
  task : s'.task = s.task
  trace : s'.trace = s.trace
  trimmed : s.log.trimmed ≤ s'.log.trimmed

theorem ended_of_task (h : s'.task = s.task) : s'.ended = s.ended := by
  unfold ended
  rw [h]

theorem Rests.event (h : s.ended = true) (hwf : s.Wf) (e : SessionEvent) : Rests s (s.event e) := by
  cases e with
  | task e =>
    show Rests s (if e = .recvNone then s else (s.taskStep e).getD s)
    split_ifs
    · exact ⟨rfl, rfl, le_rfl⟩
    · rw [taskStep_of_ended h]
      exact ⟨rfl, rfl, le_rfl⟩
  | acked seq =>
    refine ⟨rfl, rfl, ?_⟩
    show s.log.trimmed ≤ (s.log.trim seq).trimmed
    rw [hwf.logged.refines.trimmed_trim]
    exact le_max_left _ _
  | _ => exact ⟨rfl, rfl, le_rfl⟩

theorem Rests.events (h : s.ended = true) (hl : Living H n s) (es : List SessionEvent) :
    Rests s (s.events es) := by
  induction es generalizing s with
  | nil => exact ⟨rfl, rfl, le_rfl⟩
  | cons e es ih =>
    have h1 := Rests.event h hl.wf e
    have h2 := ih ((ended_of_task h1.task).trans h) (hl.event e)
    exact ⟨h2.task.trans h1.task, h2.trace.trans h1.trace, h1.trimmed.trans h2.trimmed⟩

theorem ended_of_replied {r : SessionHandover} (h : s.replied = some r) : s.ended = true := by
  unfold ended
  rw [phase_of_replied h]

theorem event_recv {input : SessionInput} {rest : List SessionInput}
    (hp : s.task.phase = .select) (hq : s.inbound = input :: rest) :
    s.event (.task .recv) = { s with inbound := rest }.onInput input := by
  show (s.taskStep .recv).getD s = _
  unfold taskStep
  rw [hp, hq]
  rfl

/-- The reply comes exactly if the task gets to the request. -/
theorem await_replied_iff (hl : Living H n s) (hno : s.replied = none)
    (es : List SessionEvent) :
    (s.await es).replied.isSome = true ↔
      ∃ before after, es = before ++ .task .recv :: after ∧
        (s.events before).task.phase = .select ∧
        (s.events before).inbound.head? = some .handover := by
  induction es generalizing s with
  | nil =>
    rw [await, hno]
    refine ⟨by simp, ?_⟩
    rintro ⟨before, after, heq, -⟩
    simp at heq
  | cons e es ih =>
    have hstep : s.await (e :: es) = (s.event e).await es := by
      rw [await, hno]
      rfl
    rw [hstep]
    cases hrep : (s.event e).replied with
    | some r =>
      obtain ⟨rfl, hp, hq, -⟩ := event_replied hno hrep
      refine ⟨fun _ => ⟨[], es, rfl, hp, hq⟩, fun _ => ?_⟩
      have hstop : (s.event (.task .recv)).await es = s.event (.task .recv) := by
        cases es with
        | nil => rfl
        | cons e' es => rw [await, hrep]; rfl
      rw [hstop, hrep]
      rfl
    | none =>
      rw [ih (hl.event e) hrep]
      constructor
      · rintro ⟨before, after, rfl, hp, hq⟩
        exact ⟨e :: before, after, rfl, hp, hq⟩
      · rintro ⟨before, after, heq, hp, hq⟩
        cases before with
        | nil =>
          -- Taking the request right away would have been the reply.
          cases heq
          obtain ⟨rest, hrest⟩ := List.head?_eq_some_iff.mp hq
          have htake := event_recv (s := s) hp hrest
          rw [htake] at hrep
          cases hrep
        | cons e' before =>
          cases heq
          exact ⟨before, after, rfl, hp, hq⟩

/-! ## Runs of a session -/

/-- A session whose task was not asked for its state. -/
structure Unasked (s : Session) : Prop where
  living : Living [] 0 s
  replied : s.replied = none
  inbound : SessionInput.handover ∉ s.inbound

theorem Unasked.start (agent : Bool) (stdin stdout stderr exit : Fd) (pgid : Int32) :
    Unasked (.start true agent (.start stdin stdout stderr exit pgid)) where
  living := ⟨wf_start _ _ _ _ _ _ _, rfl, ⟨.inr rfl, le_rfl⟩, List.nil_prefix⟩
  replied := rfl
  inbound := List.not_mem_nil

theorem Unasked.event (h : Unasked s) (e : SessionEvent) : Unasked (s.event e) where
  living := h.living.event e
  replied := by
    cases hr : (s.event e).replied with
    | none => rfl
    | some r =>
      obtain ⟨-, -, hq, -⟩ := event_replied h.replied hr
      exact absurd (List.mem_of_mem_head? hq) h.inbound
  inbound := by
    have hadd : ∀ input, input ≠ SessionInput.handover →
        SessionInput.handover ∉ (s.enqueue input).inbound := by
      intro input hne hmem
      rcases List.mem_append.mp hmem with hmem | hmem
      · exact h.inbound hmem
      · exact hne (List.mem_singleton.mp hmem).symm
    cases e with
    | task e =>
      show SessionInput.handover ∉ (if e = .recvNone then s else (s.taskStep e).getD s).inbound
      split_ifs
      · exact h.inbound
      · cases hs : s.taskStep e with
        | none => exact h.inbound
        | some s' => exact fun hmem => h.inbound ((Steady.taskStep hs).inbound.subset hmem)
    | message m => exact hadd _ (by simp)
    | datagram m => exact hadd _ (by simp)
    | abort => exact hadd _ (by simp)
    | acked seq => exact h.inbound

end Session

namespace Handing

open Session

variable {h : Handing} {H : List Msg} {n : Nat} {r : SessionHandover}

theorem living_atReply (hl : Living H n h.session) : Living H n h.atReply :=
  (hl.enqueue _).await _

/-- The reply is the state of the session when it comes. -/
theorem replied_of_reply (hu : Unasked h.session) (hr : h.reply = some r) :
    h.atReply.replied = some r ∧ r = h.atReply.handoverReply := by
  unfold reply at hr
  split_ifs at hr
  exact ⟨hr, await_replied (s := h.session.enqueue .handover) hu.replied hr⟩

/-- A session is handed over exactly if its task gets to the request in time. -/
theorem reply_isSome_iff (hu : Unasked h.session) : h.reply.isSome = true ↔ h.Served := by
  have hl := hu.living.enqueue .handover
  have hiff := await_replied_iff hl hu.replied h.wait
  unfold reply
  split_ifs with hended
  · -- The phase of a task that has ended stays as it is.
    refine ⟨by simp, ?_⟩
    rintro ⟨before, after, -, hp, -⟩
    have htask := (Rests.events (s := h.session.enqueue .handover) hended hl before).task
    have hlater := (ended_of_task htask).trans hended
    unfold ended at hlater
    rw [hp] at hlater
    cases hlater
  · exact hiff

theorem handed_eq (hu : Unasked h.session) : h.handed =
    h.reply.map fun r => { r with state := { r.state with forwardAgent := h.session.agent } } := by
  unfold handed
  rw [if_pos hu.living.resumable]

theorem agent_atReply (h : Handing) : h.atReply.agent = h.session.agent := agent_await _ _

end Handing

namespace Session

variable {s s' : Session} {H : List Msg} {n : Nat}

/-- What was pushed stays pushed and what was applied stays applied, also when the
daemon is restarted. -/
theorem Living.life {e : LifeEvent} (hu : Unasked s) (h : Living H n s)
    (hs : s.life e = some s') : Living H n s' := by
  cases e with
  | event e =>
    cases hs
    exact h.event e
  | restart wait =>
    obtain ⟨r, hr, rfl⟩ := Option.map_eq_some_iff.mp hs
    obtain ⟨hrep, heq⟩ := Handing.replied_of_reply hu hr
    have hat := Handing.living_atReply (h := ⟨s, wait, []⟩) h
    have hborn := hat.reborn hrep heq
    exact ⟨hborn.wf, hborn.resumable,
      ⟨hborn.applying.settled, hat.applying.le_last.trans hborn.applying.le_last⟩,
      hat.pushed.trans hborn.pushed⟩

theorem Unasked.life {e : LifeEvent} (h : Unasked s) (hs : s.life e = some s') : Unasked s' := by
  have hl := h.living.life h hs
  cases e with
  | event e =>
    cases hs
    exact h.event e
  | restart wait =>
    obtain ⟨r, hr, rfl⟩ := Option.map_eq_some_iff.mp hs
    exact ⟨hl, rfl, List.not_mem_nil⟩

theorem unasked_of_reachable (h : lifeMachine.Reachable s) : Unasked s := by
  refine Machine.Under.invariant h ?_ ?_
  · rintro s ⟨agent, stdin, stdout, stderr, exit, pgid, rfl⟩
    exact .start ..
  · intro s e s' hu _ hs
    exact hu.life hs

theorem Living.run {es : List LifeEvent} (hu : Unasked s) (h : Living H n s)
    (hr : lifeMachine.run s es = some s') : Living H n s' := by
  induction es generalizing s with
  | nil =>
    cases hr
    exact h
  | cons e es ih =>
    obtain ⟨t, ht, hr⟩ := Option.bind_eq_some_iff.mp hr
    exact ih (hu.life ht) (h.life hu ht) hr

end Session

end HerdrEternal
