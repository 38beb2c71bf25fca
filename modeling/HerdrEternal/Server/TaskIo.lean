import Mathlib.Logic.Function.Basic
import HerdrEternal.Server.SessionInv

/-!
# The task and its pipe ends

What a step of the task does to the daemon's side of the pipes, apart from everything else the
session holds.

* `Io` is the reading side: the three pipe ends the task reads from, which of them it still reads,
  and what it made of the bytes. `io_taskStep`: a step changes it by what it reads, and by nothing
  else.
* `stdin_taskStep`: a step closes stdin or leaves it, and never opens it.
* `writing_taskStep`, `reaping_taskStep`: how the task gets into a write to stdin, and into waiting
  for the wrapper. Everywhere else it is back in its loop after every step, or has ended.
-/

namespace HerdrEternal

/-- The reading side of a task. -/
structure Io where
  fd : Stream → Fd
  exit : Fd
  isOpen : Stream → Bool
  exitCode : Option Int32
  exitLine : Data
  /-- The daemon is the parent of the wrapper. -/
  child : Bool
  read : List (Stream × UInt8)

/-- What a step of the task does to its reading side. -/
def Io.step (io : Io) : TaskEvent → Io
  | .outputRead stream (.data bytes) => { io with read := io.read ++ bytes.map (stream, ·) }
  | .outputRead stream _ => { io with isOpen := Function.update io.isOpen stream false }
  | .exitRead (.data bytes) =>
    let line := io.exitLine ++ bytes
    { io with
      exitLine := line
      exitCode := if line.contains 10 then some (parseExitLine line) else io.exitCode }
  | .exitRead _ => { io with exitCode := some 255 }
  | _ => io

def Stream.role : Stream → Role
  | .out => .stdout
  | .err => .stderr

theorem Stream.role_injective : Function.Injective Stream.role := by
  intro stream stream' h
  cases stream <;> cases stream' <;> first | rfl | cases h

theorem Stream.exit_ne_role (stream : Stream) : Role.exit ≠ stream.role := by
  cases stream <;> simp [role]

theorem Stream.role_ne_stdin (stream : Stream) : stream.role ≠ .stdin := by
  cases stream <;> simp [role]

def Task.output (t : Task) : Stream → Fd
  | .out => t.stdout
  | .err => t.stderr

namespace Session

variable {s s' : Session}

def io (s : Session) : Io where
  fd := s.task.output
  exit := s.task.exit
  isOpen := s.streamOpen
  exitCode := s.task.exitCode
  exitLine := s.task.exitLine
  child := s.task.child
  read := s.trace.read

/-! ## What leaves the reading side alone -/

@[simp] theorem io_endOfLoop (s : Session) : s.endOfLoop.io = s.io := by
  rcases s.endOfLoop_cases with heq | ⟨code, -, -, -, heq⟩
  · rw [heq]
    rfl
  · rw [heq]
    rfl

@[simp] theorem io_finishWrite (s : Session) : s.finishWrite.io = s.io := by
  unfold finishWrite
  rw [io_endOfLoop]
  rfl

@[simp] theorem io_abort (s : Session) : s.abort.io = s.io :=
  rfl

@[simp] theorem io_applyStdin (s : Session) (seq : Nat) (data : Data) :
    (s.applyStdin seq data).io = s.io := by
  unfold applyStdin
  dsimp only
  split_ifs
  · rw [io_finishWrite]
    rfl
  · rfl

@[simp] theorem io_applyEof (s : Session) (seq : Nat) : (s.applyEof seq).io = s.io := by
  unfold applyEof
  dsimp only
  rw [io_endOfLoop]
  rfl

@[simp] theorem io_onInput (s : Session) (input : SessionInput) : (s.onInput input).io = s.io := by
  unfold onInput
  split
  · split_ifs <;> simp
  · split_ifs <;> simp
  · simp
  · split_ifs <;> simp
  · simp
  · rfl
  · simp

theorem io_closeStream (s : Session) (stream : Stream) :
    (s.closeStream stream).io = { s.io with isOpen := Function.update s.io.isOpen stream false } := by
  have hfd : (s.closeStream stream).task.output = s.task.output := by
    funext stream'
    cases stream <;> cases stream' <;> rfl
  have hopen : (s.closeStream stream).streamOpen = Function.update s.streamOpen stream false := by
    funext stream'
    cases stream <;> cases stream' <;> rfl
  simp only [io, hfd, hopen]
  cases stream <;> rfl

theorem io_readExit (s : Session) (r : ReadResult) :
    (s.setTask (s.task.readExit r)).io = s.io.step (.exitRead r) := by
  cases r with
  | eof => rfl
  | error => rfl
  | data bytes =>
    unfold Task.readExit Io.step
    dsimp only
    by_cases hline : (s.task.exitLine ++ bytes).contains 10 = true
    · rw [if_pos hline, if_pos (show (s.io.exitLine ++ bytes).contains 10 = true from hline)]
      rfl
    · rw [if_neg hline, if_neg (show ¬ (s.io.exitLine ++ bytes).contains 10 = true from hline)]
      rfl

/-! ## Steps -/

/-- A step of the task changes the reading side by what it reads. -/
theorem io_taskStep {e : TaskEvent} (hs : s.taskStep e = some s') : s'.io = s.io.step e := by
  cases TaskStep.of_taskStep hs with
  | @output stream r =>
    cases r with
    | data bytes =>
      unfold onOutput
      dsimp only
      rw [io_endOfLoop]
      rfl
    | eof => exact (io_endOfLoop _).trans (io_closeStream s stream)
    | error => exact (io_endOfLoop _).trans (io_closeStream s stream)
  | @exit r =>
    rw [← io_readExit]
    unfold onExit
    dsimp only
    split_ifs
    · rfl
    · exact io_endOfLoop _
  | recv => exact io_onInput _ _
  | recvNone => exact io_abort s
  | wrotePart => rfl
  | wroteAll => exact io_finishWrite _
  | writeFailed =>
    rw [io_finishWrite]
    rfl
  | reaped => exact io_endOfLoop s
  | aborted => rfl

theorem stdin_endOfLoop (s : Session) : s.endOfLoop.task.stdin = s.task.stdin := by
  rcases s.endOfLoop_cases with heq | ⟨code, -, -, -, heq⟩
  · rw [heq]
    rfl
  · rw [heq]
    rfl

theorem stdin_applyStdin (s : Session) (seq : Nat) (data : Data) :
    (s.applyStdin seq data).task.stdin = s.task.stdin := by
  unfold applyStdin
  dsimp only
  split_ifs
  · exact stdin_endOfLoop _
  · rfl

theorem stdin_applyEof (s : Session) (seq : Nat) : (s.applyEof seq).task.stdin = none :=
  stdin_endOfLoop _

theorem stdin_onInput (s : Session) (input : SessionInput) :
    (s.onInput input).task.stdin = s.task.stdin ∨ (s.onInput input).task.stdin = none := by
  unfold onInput
  split
  · split_ifs
    · exact .inl (stdin_applyStdin _ _ _)
    · exact .inl (stdin_endOfLoop _)
  · split_ifs
    · exact .inl (stdin_applyStdin _ _ _)
    · exact .inl (stdin_endOfLoop _)
  · exact .inl (stdin_endOfLoop _)
  · split_ifs
    · exact .inr (stdin_applyEof _ _)
    · exact .inl (stdin_endOfLoop _)
  · exact .inl (stdin_endOfLoop _)
  · exact .inl rfl
  · exact .inl rfl

theorem stdin_taskStep {e : TaskEvent} (hs : s.taskStep e = some s') :
    s'.task.stdin = s.task.stdin ∨ s'.task.stdin = none := by
  cases TaskStep.of_taskStep hs with
  | @output stream r =>
    have hclose : (s.closeStream stream).endOfLoop.task.stdin = s.task.stdin := by
      rw [stdin_endOfLoop]
      cases stream <;> rfl
    cases r with
    | data bytes => exact .inl (stdin_endOfLoop _)
    | eof => exact .inl hclose
    | error => exact .inl hclose
  | @exit r =>
    obtain ⟨code, line, ht⟩ := s.task.readExit_eq r
    unfold onExit
    rw [ht]
    dsimp only
    split_ifs
    · exact .inl rfl
    · exact .inl (stdin_endOfLoop _)
  | recv => exact stdin_onInput _ _
  | recvNone => exact .inl rfl
  | wrotePart => exact .inl rfl
  | wroteAll => exact .inl (stdin_endOfLoop _)
  | writeFailed => exact .inr (stdin_endOfLoop _)
  | reaped => exact .inl (stdin_endOfLoop _)
  | aborted => exact .inl rfl

/-! ## Where a step leaves the task -/

/-- What the task starts to write to stdin when it takes its next input. -/
def nextChunk (s : Session) : Data :=
  match s.task.stdin, s.inbound.head? with
  | some _, some (.message (.stdin seq data)) =>
    if acceptStream seq s.task.lastClientSeq then data else []
  | some _, some (.datagram (.stdin seq data)) =>
    if acceptDatagram seq s.task.lastClientSeq then data else []
  | _, _ => []

/-- The task is neither writing to stdin nor waiting for the wrapper. -/
def AtRest (s : Session) : Prop :=
  (∀ rest, s.task.phase ≠ .writing rest) ∧ s.task.phase ≠ .reaping

theorem atRest_of_phase {p : Phase} (hp : s.task.phase = p) (hw : ∀ rest, p ≠ .writing rest)
    (hr : p ≠ .reaping) : AtRest s := by
  subst hp
  exact ⟨hw, hr⟩

theorem atRest_endOfLoop (s : Session) : AtRest s.endOfLoop := by
  rcases s.endOfLoop_cases with heq | ⟨code, -, -, -, heq⟩
  · rw [heq]
    exact atRest_of_phase rfl (fun _ h => by cases h) (fun h => by cases h)
  · rw [heq]
    exact atRest_of_phase rfl (fun _ h => by cases h) (fun h => by cases h)

theorem atRest_abort (s : Session) : AtRest s.abort := by
  refine atRest_of_phase (p := if s.task.child then .aborting else .returned .aborted) rfl ?_ ?_
  · intro rest
    split_ifs <;> simp
  · split_ifs <;> simp

/-- A chunk is written if stdin is open and there is something to write. -/
theorem applyStdin_cases (s : Session) (seq : Nat) (data : Data) :
    AtRest (s.applyStdin seq data) ∨
      (s.task.stdin ≠ none ∧ data ≠ [] ∧ (s.applyStdin seq data).task.phase = .writing data) := by
  unfold applyStdin
  dsimp only
  split_ifs with h
  · exact .inl (atRest_endOfLoop _)
  · rw [Bool.or_eq_true, Option.isNone_iff_eq_none, List.isEmpty_iff, not_or] at h
    exact .inr ⟨h.1, h.2, rfl⟩

theorem onInput_cases {input : SessionInput} {rest : List SessionInput}
    (hq : s.inbound = input :: rest) :
    AtRest ({ s with inbound := rest }.onInput input) ∨
      (s.nextChunk ≠ [] ∧
        ({ s with inbound := rest }.onInput input).task.phase = .writing s.nextChunk) := by
  -- The chunk of an accepted message.
  have hwrite : ∀ (seq : Nat) (data : Data), (∀ fd, s.task.stdin = some fd → s.nextChunk = data) →
      AtRest ({ s with inbound := rest }.applyStdin seq data) ∨ (s.nextChunk ≠ [] ∧
        ({ s with inbound := rest }.applyStdin seq data).task.phase = .writing s.nextChunk) := by
    intro seq data hchunk
    refine (applyStdin_cases _ seq data).imp_right ?_
    rintro ⟨hopen, hne, hp⟩
    obtain ⟨fd, hfd⟩ := Option.ne_none_iff_exists'.mp hopen
    rw [hchunk fd hfd]
    exact ⟨hne, hp⟩
  unfold onInput
  split
  · split_ifs with hacc
    · refine hwrite _ _ fun fd hfd => ?_
      unfold nextChunk
      rw [hfd, hq]
      exact if_pos hacc
    · exact .inl (atRest_endOfLoop _)
  · split_ifs with hacc
    · refine hwrite _ _ fun fd hfd => ?_
      unfold nextChunk
      rw [hfd, hq]
      exact if_pos hacc
    · exact .inl (atRest_endOfLoop _)
  · exact .inl (atRest_endOfLoop _)
  · split_ifs
    · exact .inl (atRest_endOfLoop _)
    · exact .inl (atRest_endOfLoop _)
  · exact .inl (atRest_endOfLoop _)
  · exact .inl (atRest_of_phase rfl (fun _ h => by cases h) (fun h => by cases h))
  · exact .inl (atRest_abort _)

/-- A write starts with the chunk that is taken, and goes on with what is left of it. -/
theorem writing_taskStep {e : TaskEvent} {rest : Data} (hs : s.taskStep e = some s')
    (hp : s'.task.phase = .writing rest) :
    (e = .recv ∧ rest = s.nextChunk ∧ rest ≠ []) ∨
      ∃ all n, e = .stdinWritten n ∧ s.task.phase = .writing all ∧ rest = all.drop n ∧
        n < all.length := by
  have hno : ∀ {t : Session}, AtRest t → t.task.phase ≠ .writing rest := fun h => h.1 rest
  cases TaskStep.of_taskStep hs with
  | @output stream r =>
    cases r with
    | data bytes => exact absurd hp (hno (atRest_endOfLoop _))
    | eof => exact absurd hp (hno (atRest_endOfLoop _))
    | error => exact absurd hp (hno (atRest_endOfLoop _))
  | exit =>
    unfold onExit at hp
    dsimp only at hp
    split_ifs at hp
    · cases hp
    · exact absurd hp (hno (atRest_endOfLoop _))
  | recv _ hq =>
    rcases onInput_cases hq with hrest | ⟨hne, hp'⟩
    · exact absurd hp (hno hrest)
    · cases hp.symm.trans hp'
      exact .inl ⟨rfl, rfl, hne⟩
  | recvNone => exact absurd hp (hno (atRest_abort s))
  | wrotePart hp' _ hlt =>
    cases hp
    exact .inr ⟨_, _, rfl, hp', rfl, hlt⟩
  | wroteAll => exact absurd hp (hno (atRest_endOfLoop _))
  | writeFailed => exact absurd hp (hno (atRest_endOfLoop _))
  | reaped => exact absurd hp (hno (atRest_endOfLoop _))
  | aborted => cases hp

/-- Only a daemon that is the wrapper's parent waits for it, and only after reading the exit
pipe. -/
theorem reaping_taskStep {e : TaskEvent} (hs : s.taskStep e = some s')
    (hp : s'.task.phase = .reaping) :
    s.task.child = true ∧ ∃ r, e = .exitRead r ∧ s'.task.exitCode ≠ none := by
  have hno : ∀ {t : Session}, AtRest t → t.task.phase ≠ .reaping := fun h => h.2
  cases TaskStep.of_taskStep hs with
  | @output stream r =>
    cases r with
    | data bytes => exact absurd hp (hno (atRest_endOfLoop _))
    | eof => exact absurd hp (hno (atRest_endOfLoop _))
    | error => exact absurd hp (hno (atRest_endOfLoop _))
  | @exit r =>
    obtain ⟨code, line, ht⟩ := s.task.readExit_eq r
    unfold onExit at hp ⊢
    rw [ht] at hp ⊢
    dsimp only at hp ⊢
    split_ifs at hp ⊢ with hg
    · rw [Bool.and_eq_true] at hg
      refine ⟨hg.2, r, rfl, ?_⟩
      show code ≠ none
      rw [← Option.isSome_iff_ne_none]
      exact hg.1
    · exact absurd hp (hno (atRest_endOfLoop _))
  | recv _ hq =>
    rcases onInput_cases hq with hrest | ⟨-, hp'⟩
    · exact absurd hp (hno hrest)
    · cases hp.symm.trans hp'
  | recvNone => exact absurd hp (hno (atRest_abort s))
  | wrotePart => cases hp
  | wroteAll => exact absurd hp (hno (atRest_endOfLoop _))
  | writeFailed => exact absurd hp (hno (atRest_endOfLoop _))
  | reaped => exact absurd hp (hno (atRest_endOfLoop _))
  | aborted => cases hp

end Session

end HerdrEternal
