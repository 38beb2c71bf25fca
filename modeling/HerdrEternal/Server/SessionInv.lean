import HerdrEternal.Server.Attach

/-!
# What a session's log holds

The task numbers the messages it logs with its own counter, while the log numbers them by
position. This file shows that the two agree along every run, and that the log is a faithful
record of the child's output:

* `Logged`: the log is a window on everything ever pushed, the pushed messages are numbered
  consecutively, and their data are the bytes read from the child, in the order they were read.
* `Wf`: besides, an Exit entry is there exactly when the task returned because the command
  finished. It is the last entry, it carries the session's exit code, and both output streams
  have ended.

`Wf.taskStep` is the step lemma; what connections do to a session (`enqueue`, `trimLog`,
`unregister`) keeps `Wf` as well.
-/

namespace HerdrEternal

open History

namespace ChannelMessage

/-- The messages a log holds. -/
def isEntry : Msg → Bool
  | .stdout .. | .stderr .. | .exit .. => true
  | _ => false

def isExit : Msg → Bool
  | .exit .. => true
  | _ => false

/-- The bytes of an output message, each with its stream. -/
def output : Msg → List (Stream × UInt8)
  | .stdout _ data => data.map (Stream.out, ·)
  | .stderr _ data => data.map (Stream.err, ·)
  | _ => []

end ChannelMessage

/-- The output bytes of a list of messages. -/
def outputs (H : List Msg) : List (Stream × UInt8) := H.flatMap (·.output)

@[simp] theorem outputs_nil : outputs [] = [] := rfl

theorem outputs_append (H H' : List Msg) : outputs (H ++ H') = outputs H ++ outputs H' :=
  List.flatMap_append

theorem outputs_mono {H H' : List Msg} (h : H <+: H') : outputs H <+: outputs H' := by
  obtain ⟨t, rfl⟩ := h
  rw [outputs_append]
  exact List.prefix_append _ _

/-- The bytes of one stream among tagged bytes. -/
def bytesOf (stream : Stream) (bs : List (Stream × UInt8)) : Data :=
  (bs.filter fun b => decide (b.1 = stream)).map (·.2)

theorem bytesOf_append (stream : Stream) (bs bs' : List (Stream × UInt8)) :
    bytesOf stream (bs ++ bs') = bytesOf stream bs ++ bytesOf stream bs' := by
  simp [bytesOf]

theorem bytesOf_mono {stream : Stream} {bs bs' : List (Stream × UInt8)} (h : bs <+: bs') :
    bytesOf stream bs <+: bytesOf stream bs' := by
  obtain ⟨t, rfl⟩ := h
  rw [bytesOf_append]
  exact List.prefix_append _ _

theorem bytesOf_tagged (stream stream' : Stream) (data : Data) :
    bytesOf stream (data.map (stream', ·)) = if stream' = stream then data else [] := by
  unfold bytesOf
  split_ifs with h
  · simp [List.filter_map, Function.comp_def, h]
  · simp [List.filter_map, Function.comp_def, h]

@[simp] theorem Stream.output_message (stream : Stream) (seq : Nat) (data : Data) :
    (stream.message seq data).output = data.map (stream, ·) := by
  cases stream <;> rfl

@[simp] theorem Stream.seq?_message (stream : Stream) (seq : Nat) (data : Data) :
    (stream.message seq data).seq? = some seq := by
  cases stream <;> rfl

@[simp] theorem Stream.isEntry_message (stream : Stream) (seq : Nat) (data : Data) :
    (stream.message seq data).isEntry = true := by
  cases stream <;> rfl

@[simp] theorem Stream.isExit_message (stream : Stream) (seq : Nat) (data : Data) :
    (stream.message seq data).isExit = false := by
  cases stream <;> rfl

/-- Reading the exit pipe changes the exit line and the exit code only. -/
theorem Task.readExit_eq (t : Task) (r : ReadResult) :
    ∃ code line, t.readExit r = { t with exitCode := code, exitLine := line } := by
  unfold readExit
  split
  · exact ⟨_, _, rfl⟩
  · exact ⟨_, _, rfl⟩
  · dsimp only
    split_ifs
    · exact ⟨_, _, rfl⟩
    · exact ⟨_, _, rfl⟩

namespace Session

variable {s s' : Session}

/-! ## What a step can do -/

/-- The end of the loop body either waits again, or logs Exit and returns. -/
theorem endOfLoop_cases (s : Session) :
    s.endOfLoop = s.setTask { s.task with phase := .select } ∨
    ∃ code, s.task.exitCode = some code ∧ s.task.stdoutOpen = false ∧ s.task.stderrOpen = false ∧
      s.endOfLoop = (s.push (.exit (s.task.seq + 1) code)).setTask
        { s.task with seq := s.task.seq + 1, phase := .returned .exited } := by
  unfold endOfLoop
  split
  · rename_i code hcode
    by_cases hopen : s.task.stdoutOpen || s.task.stderrOpen
    · exact .inl (by rw [if_pos hopen])
    · rw [if_neg hopen]
      simp only [Bool.or_eq_true, not_or, Bool.not_eq_true] at hopen
      exact .inr ⟨code, hcode, hopen.1, hopen.2, rfl⟩
  · exact .inl rfl

/-- Every step of the task, by the branch it runs and with the guard it passed. -/
inductive TaskStep (s : Session) : TaskEvent → Session → Prop
  | output {stream : Stream} {r : ReadResult} (hp : s.task.phase = .select)
      (hopen : s.streamOpen stream = true) (hfits : readFits STDIO_BUF r = true) :
      TaskStep s (.outputRead stream r) (s.onOutput stream r)
  | exit {r : ReadResult} (hp : s.task.phase = .select) (hcode : s.task.exitCode = none)
      (hfits : readFits EXIT_BUF r = true) : TaskStep s (.exitRead r) (s.onExit r)
  | recv {input : SessionInput} {rest : List SessionInput} (hp : s.task.phase = .select)
      (hq : s.inbound = input :: rest) : TaskStep s .recv ({ s with inbound := rest }.onInput input)
  | recvNone (hp : s.task.phase = .select) (hq : s.inbound = []) : TaskStep s .recvNone s.abort
  | wrotePart {rest : Data} {n : Nat} (hp : s.task.phase = .writing rest) (hpos : 0 < n)
      (hn : n < rest.length) :
      TaskStep s (.stdinWritten n) { s with
        task := { s.task with phase := .writing (rest.drop n) }
        trace := { s.trace with wrote := s.trace.wrote ++ rest.take n } }
  | wroteAll {rest : Data} (hp : s.task.phase = .writing rest) (hpos : 0 < rest.length) :
      TaskStep s (.stdinWritten rest.length)
        { s with trace := { s.trace with wrote := s.trace.wrote ++ rest } }.finishWrite
  | writeFailed {rest : Data} (hp : s.task.phase = .writing rest) :
      TaskStep s .stdinFailed (s.setTask { s.task with stdin := none }).finishWrite
  | reaped (hp : s.task.phase = .reaping) : TaskStep s .reaped s.endOfLoop
  | aborted (hp : s.task.phase = .aborting) :
      TaskStep s .reaped (s.setTask { s.task with phase := .returned .aborted })

theorem TaskStep.of_taskStep {e : TaskEvent} (h : s.taskStep e = some s') : TaskStep s e s' := by
  unfold taskStep at h
  split at h
  · rename_i stream r hp
    split_ifs at h with hg
    simp only [Bool.and_eq_true] at hg
    cases h
    exact .output hp hg.1 hg.2
  · rename_i r hp
    split_ifs at h with hg
    simp only [Bool.and_eq_true, Option.isNone_iff_eq_none] at hg
    cases h
    exact .exit hp hg.1 hg.2
  · rename_i hp
    split at h
    · cases h
    · rename_i input rest hq
      cases h
      exact .recv hp hq
  · rename_i hp
    split_ifs at h with hg
    cases h
    exact .recvNone hp (List.isEmpty_iff.mp hg)
  · rename_i rest n hp
    simp only [Bool.and_eq_true, decide_eq_true_eq] at h
    split_ifs at h with hg hn
    · cases h
      subst hn
      rw [List.take_length]
      exact .wroteAll hp hg.1
    · cases h
      exact .wrotePart hp hg.1 (by omega)
  · rename_i rest hp
    cases h
    exact .writeFailed hp
  · rename_i hp
    cases h
    exact .reaped hp
  · rename_i hp
    cases h
    exact .aborted hp
  · cases h

/-! ## The record of the output -/

/-- The log is a window on what was pushed, which is numbered, and whose data was read from the
child. -/
structure Logged (s : Session) : Prop where
  refines : s.log.Refines s.trace.pushed
  numbered : Numbered ChannelMessage.seq? s.trace.pushed
  entry : ∀ m ∈ s.trace.pushed, m.isEntry = true
  seq_eq : s.task.seq = s.trace.pushed.length
  read_eq : outputs s.trace.pushed = s.trace.read

/-- `Logged` looks at the log, the record of it, and the task's counter only. -/
theorem Logged.congr (h : Logged s) (hlog : s'.log = s.log)
    (hpushed : s'.trace.pushed = s.trace.pushed) (hread : s'.trace.read = s.trace.read)
    (hseq : s'.task.seq = s.task.seq) : Logged s' where
  refines := by rw [hlog, hpushed]; exact h.refines
  numbered := by rw [hpushed]; exact h.numbered
  entry := by rw [hpushed]; exact h.entry
  seq_eq := by rw [hseq, hpushed]; exact h.seq_eq
  read_eq := by rw [hpushed, hread]; exact h.read_eq

/-- Pushing the next number, with data that was just read. -/
theorem Logged.push {m : Msg} (h : Logged s) (hm : m.seq? = some (s.task.seq + 1))
    (hentry : m.isEntry = true) (hread : s'.trace.read = s.trace.read ++ m.output)
    (hlog : s'.log = s.log.push m) (hpushed : s'.trace.pushed = s.trace.pushed ++ [m])
    (hseq : s'.task.seq = s.task.seq + 1) : Logged s' where
  refines := by rw [hlog, hpushed]; exact h.refines.push m
  numbered := by
    rw [hpushed]
    exact h.numbered.concat (h.seq_eq ▸ hm)
  entry := by
    rw [hpushed]
    intro m' hm'
    rcases List.mem_append.mp hm' with hm' | hm'
    · exact h.entry m' hm'
    · rw [List.mem_singleton.mp hm']; exact hentry
  seq_eq := by rw [hseq, hpushed, h.seq_eq]; simp
  read_eq := by
    rw [hpushed, hread, outputs_append, h.read_eq]
    simp [outputs]

/-- No Exit entry was pushed yet. -/
def NoExit (s : Session) : Prop := ∀ m ∈ s.trace.pushed, m.isExit = false

/-- The Exit entry is there exactly when the task returned after logging it. -/
def ExitOk (s : Session) : Prop :=
  match s.task.phase with
  | .returned .exited => s.task.stdoutOpen = false ∧ s.task.stderrOpen = false ∧
      ∃ code before, s.task.exitCode = some code ∧
        s.trace.pushed = before ++ [.exit (before.length + 1) code] ∧
        ∀ m ∈ before, m.isExit = false
  | _ => s.NoExit

/-- The invariant of a session. -/
structure Wf (s : Session) : Prop where
  logged : Logged s
  exitOk : ExitOk s

theorem Wf.noExit (h : Wf s) (hp : s.task.phase ≠ .returned .exited) : NoExit s := by
  have := h.exitOk
  unfold ExitOk at this
  split at this
  · exact absurd ‹_› hp
  · exact this

/-- An Exit entry in the log is its last entry and carries the exit code, and the streams have
ended. -/
theorem Wf.exit_last (h : Wf s) {x seq : Nat} {code : Int32}
    (hx : s.trace.pushed[x]? = some (.exit seq code)) :
    s.task.exitCode = some code ∧ s.trace.pushed = s.trace.pushed.take x ++ [.exit seq code] ∧
      (∀ m ∈ s.trace.pushed.take x, m.isExit = false) ∧
      s.task.stdoutOpen = false ∧ s.task.stderrOpen = false := by
  by_cases hp : s.task.phase = .returned .exited
  · have hok := h.exitOk
    unfold ExitOk at hok
    rw [hp] at hok
    obtain ⟨hout, herr, code', before, hcode, hpush, hbefore⟩ := hok
    have hxl : x = before.length := by
      rw [hpush] at hx
      rcases Nat.lt_trichotomy x before.length with hlt | heq | hgt
      · rw [List.getElem?_append_left hlt] at hx
        cases hbefore _ (List.mem_of_getElem? hx)
      · exact heq
      · rw [List.getElem?_eq_none (by simp; omega)] at hx
        cases hx
    subst hxl
    rw [hpush, List.getElem?_concat_length] at hx
    cases hx
    rw [hpush, List.take_left]
    exact ⟨hcode, rfl, hbefore, hout, herr⟩
  · cases h.noExit hp _ (List.mem_of_getElem? hx)

/-- A session whose task has not logged Exit is well formed in any other phase. -/
theorem Logged.wf (h : Logged s) (hne : NoExit s) (hp : s.task.phase ≠ .returned .exited) :
    Wf s := by
  refine ⟨h, ?_⟩
  unfold ExitOk
  split
  · exact absurd ‹_› hp
  · exact hne

theorem wf_start (resumable agent : Bool) (stdin stdout stderr exit : Fd) (pgid : Int32) :
    Wf (.start resumable agent (.start stdin stdout stderr exit pgid)) :=
  Logged.wf ⟨OutboundLog.refines_empty, Numbered.nil, by simp [start, Trace.empty], rfl, rfl⟩
    (by simp [NoExit, start, Trace.empty]) (by simp [start, Task.start])

/-! ## Steps keep the record -/

/-- The task is still logging: the record holds and Exit is not part of it. -/
structure Logging (s : Session) : Prop where
  logged : Logged s
  noExit : NoExit s

theorem Wf.logging (h : Wf s) (hp : s.task.phase ≠ .returned .exited) : Logging s :=
  ⟨h.logged, h.noExit hp⟩

/-- `Logging` survives whatever leaves the log and the counter alone. -/
theorem Logging.congr (h : Logging s) (hlog : s'.log = s.log)
    (hpushed : s'.trace.pushed = s.trace.pushed) (hread : s'.trace.read = s.trace.read)
    (hseq : s'.task.seq = s.task.seq) : Logging s' where
  logged := h.logged.congr hlog hpushed hread hseq
  noExit := by unfold NoExit; rw [hpushed]; exact h.noExit

theorem Logging.wf (h : Logging s) (hp : s.task.phase ≠ .returned .exited) : Wf s :=
  h.logged.wf h.noExit hp

/-- The end of the loop body logs Exit with the next number, if it logs it at all. -/
theorem Logging.endOfLoop (h : Logging s) : Wf s.endOfLoop := by
  rcases s.endOfLoop_cases with heq | ⟨code, hcode, hout, herr, heq⟩
  · rw [heq]
    exact Logging.wf (h.congr rfl rfl rfl rfl) (by simp [setTask])
  · rw [heq]
    refine ⟨h.logged.push rfl rfl (by simp [setTask, Session.push, ChannelMessage.output])
      rfl rfl rfl, ?_⟩
    refine ⟨hout, herr, code, s.trace.pushed, hcode, ?_, h.noExit⟩
    rw [← h.logged.seq_eq]
    rfl

theorem Logging.onOutput (h : Logging s) (stream : Stream) (r : ReadResult) :
    Wf (s.onOutput stream r) := by
  have hclose : Wf (s.closeStream stream).endOfLoop := by
    apply Logging.endOfLoop
    cases stream <;> exact h.congr rfl rfl rfl rfl
  cases r with
  | eof => exact hclose
  | error => exact hclose
  | data bytes =>
    apply Logging.endOfLoop
    refine ⟨h.logged.push (m := stream.message (s.task.seq + 1) bytes) ?_ ?_ ?_ rfl rfl rfl, ?_⟩
    · exact stream.seq?_message _ _
    · exact stream.isEntry_message _ _
    · rw [stream.output_message]
      rfl
    · intro m hm
      rcases List.mem_append.mp hm with hm | hm
      · exact h.noExit m hm
      · rw [List.mem_singleton.mp hm]
        exact stream.isExit_message _ _

theorem Logging.onExit (h : Logging s) (r : ReadResult) : Wf (s.onExit r) := by
  obtain ⟨code, line, ht⟩ := s.task.readExit_eq r
  unfold Session.onExit
  rw [ht]
  dsimp only
  split_ifs
  · exact Logging.wf (h.congr rfl rfl rfl rfl) (by simp [setTask])
  · exact Logging.endOfLoop (h.congr rfl rfl rfl rfl)

theorem Logging.finishWrite (h : Logging s) : Wf s.finishWrite :=
  Logging.endOfLoop (h.congr rfl rfl rfl rfl)

theorem Logging.applyStdin (h : Logging s) (seq : Nat) (data : Data) :
    Wf (s.applyStdin seq data) := by
  unfold Session.applyStdin
  dsimp only
  split_ifs
  · exact Logging.finishWrite (h.congr rfl rfl rfl rfl)
  · exact Logging.wf (h.congr rfl rfl rfl rfl) (by simp [setTask])

theorem Logging.applyEof (h : Logging s) (seq : Nat) : Wf (s.applyEof seq) :=
  Logging.endOfLoop (h.congr rfl rfl rfl rfl)

theorem Logging.abort (h : Logging s) : Wf s.abort := by
  refine Logging.wf (h.congr rfl rfl rfl rfl) ?_
  show (if s.task.child then Phase.aborting else .returned .aborted) ≠ _
  split_ifs <;> simp

theorem Logging.onInput (h : Logging s) (input : SessionInput) : Wf (s.onInput input) := by
  unfold Session.onInput
  split
  · split_ifs
    · exact h.applyStdin _ _
    · exact h.endOfLoop
  · split_ifs
    · exact h.applyStdin _ _
    · exact h.endOfLoop
  · exact h.endOfLoop
  · split_ifs
    · exact h.applyEof _
    · exact h.endOfLoop
  · exact h.endOfLoop
  · exact Logging.wf (h.congr rfl rfl rfl rfl) (by simp [setTask])
  · exact h.abort

/-- Every step of the task keeps the log a record of the output. -/
theorem Wf.taskStep {e : TaskEvent} (h : Wf s) (hs : s.taskStep e = some s') : Wf s' := by
  have hlog : ∀ {p}, s.task.phase = p → p ≠ .returned .exited → Logging s :=
    fun hp hne => h.logging (hp ▸ hne)
  cases TaskStep.of_taskStep hs with
  | output hp => exact (hlog hp (by simp)).onOutput _ _
  | exit hp => exact (hlog hp (by simp)).onExit _
  | recv hp =>
    apply Logging.onInput
    exact (hlog hp (by simp)).congr rfl rfl rfl rfl
  | recvNone hp => exact (hlog hp (by simp)).abort
  | wrotePart hp => exact Logging.wf ((hlog hp (by simp)).congr rfl rfl rfl rfl) (by simp)
  | wroteAll hp => exact Logging.finishWrite ((hlog hp (by simp)).congr rfl rfl rfl rfl)
  | writeFailed hp => exact Logging.finishWrite ((hlog hp (by simp)).congr rfl rfl rfl rfl)
  | reaped hp => exact (hlog hp (by simp)).endOfLoop
  | aborted hp => exact Logging.wf ((hlog hp (by simp)).congr rfl rfl rfl rfl) (fun h => by cases h)

/-! ## The frame of a step -/

/-- `R` survives every single update the loop body is made of: of the task, the log, the queue,
the published number and the record. -/
structure Framed (R : Session → Prop) : Prop where
  task : ∀ {t : Session} (k : Task), R t → R (t.setTask k)
  push : ∀ {t : Session} (m : Msg), R t → R (t.push m)
  inbound : ∀ {t : Session} {q : List SessionInput}, q <:+ t.inbound → R t →
    R { t with inbound := q }
  applied : ∀ {t : Session} (n : Nat), R t → R { t with stdinApplied := n }
  trace : ∀ {t : Session} (read : List (Stream × UInt8)) (wrote : Data) (eof : Bool), R t →
    R { t with trace := { t.trace with read := read, wrote := wrote, eof := eof } }

section

variable {R : Session → Prop} (hR : Framed R)
include hR

theorem Framed.endOfLoop (h : R s) : R s.endOfLoop := by
  rcases s.endOfLoop_cases with heq | ⟨code, -, -, -, heq⟩
  · rw [heq]
    exact hR.task _ h
  · rw [heq]
    exact hR.task _ (hR.push _ h)

theorem Framed.finishWrite (h : R s) : R s.finishWrite := hR.endOfLoop (hR.applied _ h)

theorem Framed.applyStdin (h : R s) (seq : Nat) (data : Data) : R (s.applyStdin seq data) := by
  unfold Session.applyStdin
  dsimp only
  split_ifs
  · exact hR.finishWrite (hR.task _ h)
  · exact hR.task _ (hR.task _ h)

theorem Framed.applyEof (h : R s) (seq : Nat) : R (s.applyEof seq) := by
  have := hR.task { s.task with lastClientSeq := seq, stdin := none } (hR.applied seq (hR.trace
    s.trace.read s.trace.wrote (s.trace.eof || s.task.stdin.isSome) h))
  exact hR.endOfLoop this

theorem Framed.onInput (h : R s) (input : SessionInput) : R (s.onInput input) := by
  unfold Session.onInput
  split
  · split_ifs
    · exact hR.applyStdin h _ _
    · exact hR.endOfLoop h
  · split_ifs
    · exact hR.applyStdin h _ _
    · exact hR.endOfLoop h
  · exact hR.endOfLoop h
  · split_ifs
    · exact hR.applyEof h _
    · exact hR.endOfLoop h
  · exact hR.endOfLoop h
  · exact hR.task _ h
  · exact hR.task _ h

theorem Framed.onOutput (h : R s) (stream : Stream) (r : ReadResult) : R (s.onOutput stream r) := by
  have hclose : R (s.closeStream stream).endOfLoop := by
    refine hR.endOfLoop ?_
    cases stream
    · exact hR.task _ h
    · exact hR.task _ h
  cases r with
  | eof => exact hclose
  | error => exact hclose
  | data bytes => exact hR.endOfLoop (hR.task _ (hR.push _ (hR.trace _ _ _ h)))

/-- **The frame rule.** What survives every single update survives every step. -/
theorem Framed.taskStep {e : TaskEvent} (h : R s) (hs : s.taskStep e = some s') : R s' := by
  cases TaskStep.of_taskStep hs with
  | output => exact hR.onOutput h _ _
  | exit =>
    unfold Session.onExit
    dsimp only
    split_ifs
    · exact hR.task _ h
    · exact hR.endOfLoop (hR.task _ h)
  | recv _ hq => exact hR.onInput (hR.inbound (hq ▸ List.suffix_cons _ _) h) _
  | recvNone => exact hR.task _ h
  | @wrotePart rest n =>
    exact hR.task { s.task with phase := .writing (rest.drop n) }
      (hR.trace s.trace.read (s.trace.wrote ++ rest.take n) s.trace.eof h)
  | wroteAll => exact hR.finishWrite (hR.trace _ _ _ h)
  | writeFailed => exact hR.finishWrite (hR.task _ h)
  | reaped => exact hR.endOfLoop h
  | aborted => exact hR.task _ h

end

/-- `s'` has pushed at least what `s` has, and trimmed nothing more. -/
structure Grows (s s' : Session) : Prop where
  pushed : s.trace.pushed <+: s'.trace.pushed
  trimmed : s'.log.trimmed = s.log.trimmed

theorem Grows.taskStep {e : TaskEvent} (hs : s.taskStep e = some s') : Grows s s' := by
  refine Framed.taskStep (R := Grows s) ⟨?_, ?_, ?_, ?_, ?_⟩ ⟨List.prefix_rfl, rfl⟩ hs
  · exact fun k h => ⟨h.pushed, h.trimmed⟩
  · exact fun m h => ⟨h.pushed.trans (List.prefix_append _ _), h.trimmed⟩
  · exact fun _ h => ⟨h.pushed, h.trimmed⟩
  · exact fun n h => ⟨h.pushed, h.trimmed⟩
  · exact fun read wrote eof h => ⟨h.pushed, h.trimmed⟩

/-- What no step of the task changes: it only takes from the queue. -/
structure Steady (s s' : Session) : Prop where
  agent : s'.agent = s.agent
  resumable : s'.resumable = s.resumable
  inbound : s'.inbound <:+ s.inbound

theorem Steady.taskStep {e : TaskEvent} (hs : s.taskStep e = some s') : Steady s s' := by
  refine Framed.taskStep (R := Steady s) ⟨?_, ?_, ?_, ?_, ?_⟩ ⟨rfl, rfl, List.suffix_rfl⟩ hs
  · exact fun k h => ⟨h.agent, h.resumable, h.inbound⟩
  · exact fun m h => ⟨h.agent, h.resumable, h.inbound⟩
  · exact fun hq h => ⟨h.agent, h.resumable, hq.trans h.inbound⟩
  · exact fun n h => ⟨h.agent, h.resumable, h.inbound⟩
  · exact fun read wrote eof h => ⟨h.agent, h.resumable, h.inbound⟩

/-! ## What connections do -/

theorem Wf.enqueue (h : Wf s) (input : SessionInput) : Wf (s.enqueue input) :=
  ⟨h.logged.congr rfl rfl rfl rfl, h.exitOk⟩

theorem Wf.unregister (h : Wf s) : Wf s.unregister :=
  ⟨h.logged.congr rfl rfl rfl rfl, h.exitOk⟩

theorem Wf.trimLog (h : Wf s) (seq : Nat) : Wf (s.trimLog seq) :=
  ⟨⟨h.logged.refines.trim seq, h.logged.numbered, h.logged.entry, h.logged.seq_eq,
    h.logged.read_eq⟩, h.exitOk⟩

end Session

end HerdrEternal
