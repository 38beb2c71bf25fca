import HerdrEternal.Server.Restart
import HerdrEternal.Server.StdinInv

/-!
# Stdin under overlapping connections

The input queue of a session is fed by every connection that is attached to it, old ones included,
and by datagrams that duplicate small chunks. The task has two rules for what it takes: on a stream
anything newer than the last number, from a datagram only the very next number.

**The machine** (`overlapMachine`). The client numbers chunks and at last `StdinEof`. Any number of
streams deliver contiguous runs of these messages, each from a start that is at most one more than
the number applied when the stream began. Datagrams carry any message that was numbered, at any
time and any number of times.

**Theorem (`stdin_deduplicated`).** In every reachable state the child got exactly the data of the
messages up to the last applied number, unless a write failed; the published number is the last
applied one whenever no write is under way, and no step lowers it; stdin is closed exactly when
`StdinEof` was applied or a write failed.

No stream is ever ahead of what the queue leads up to (`Session.reach`): it starts at or before the
last applied number, and each message it delivers moves that bound along with it.
-/

namespace HerdrEternal

open History

/-! ## The machine -/

/-- A session's input queue and who feeds it. -/
structure Overlap where
  /-- What the client numbered so far. -/
  numbered : List Msg
  /-- For each connection stream, how many messages precede the one it delivers next. -/
  streams : List Nat
  session : Session
  /-- A write to the child's stdin failed. -/
  broke : Bool
  deriving DecidableEq

inductive OverlapLabel where
  | stdinData (data : Data)
  | stdinEof
  /-- A stream begins that starts behind the first `k` messages. -/
  | begin (k : Nat)
  | deliver (stream : Nat)
  | datagram (x : Nat)
  | task (e : TaskEvent)
  deriving DecidableEq

namespace Overlap

/-- The client gives the next number to a message. It sends nothing after `StdinEof`. -/
def number (o : Overlap) (m : Nat → Msg) : Option Overlap :=
  if o.numbered.any (·.isEof) then none
  else some { o with numbered := o.numbered ++ [m (o.numbered.length + 1)] }

/-- The next message of a stream reaches the queue. -/
def deliver (o : Overlap) (stream : Nat) : Option Overlap :=
  o.streams[stream]?.bind fun x => o.numbered[x]?.map fun m =>
    { o with
      streams := o.streams.set stream (x + 1)
      session := o.session.enqueue (.message m) }

def step (o : Overlap) : OverlapLabel → Option Overlap
  | .stdinData data => o.number (.stdin · data)
  | .stdinEof => o.number .stdinEof
  | .begin k =>
    if k ≤ o.session.task.lastClientSeq then some { o with streams := o.streams ++ [k] } else none
  | .deliver stream => o.deliver stream
  | .datagram x =>
    o.numbered[x]?.map fun m => { o with session := o.session.enqueue (.datagram m) }
  | .task e =>
    (o.session.taskStep e).map fun s =>
      { o with session := s, broke := o.broke || decide (e = .stdinFailed) }

def start (s : Session) : Overlap := ⟨[], [], s, false⟩

end Overlap

/-- Runs start with a fresh session, before any stdin was read. -/
def overlapMachine : Machine Overlap OverlapLabel where
  init o := ∃ resumable agent stdin stdout stderr exit pgid,
    o = .start (.start resumable agent (.start stdin stdout stderr exit pgid))
  step := Overlap.step

/-! ## When stdin is closed -/

/-- `StdinEof` is among the first `n` messages. -/
def EofReached (M : List Msg) (n : Nat) : Prop := ∃ m ∈ M.take n, m.isEof = true

/-- Stdin is closed exactly when the end was reached or a write failed, and in the first case
nothing was lost. -/
structure ClosedAt (M : List Msg) (broke : Bool) (last : Nat) (stdin : Option Fd) (eof : Bool) :
    Prop where
  closed_iff : stdin = none ↔ EofReached M last ∨ broke = true
  eof_or_broke : stdin = none → eof = true ∨ broke = true

section

variable {M : List Msg} {broke eof : Bool} {last : Nat} {stdin : Option Fd}

theorem eofReached_succ {m : Msg} (h : M[last]? = some m) :
    EofReached M (last + 1) ↔ EofReached M last ∨ m.isEof = true := by
  unfold EofReached
  rw [List.take_add_one, h]
  simp [or_and_right, exists_or]

theorem EofReached.eq_length (h : EofReached M last) (hle : last ≤ M.length)
    (hlast : ∀ x m, M[x]? = some m → m.isEof = true → x + 1 = M.length) : last = M.length := by
  obtain ⟨m, hm, heof⟩ := h
  obtain ⟨x, hx, hget⟩ := List.mem_take_iff_getElem.mp hm
  have := hlast x m (by rw [← hget, List.getElem?_eq_getElem]) heof
  omega

theorem ClosedAt.next {m : Msg} (h : ClosedAt M broke last stdin eof) (hget : M[last]? = some m)
    (hm : m.isEof = false) : ClosedAt M broke (last + 1) stdin eof := by
  refine ⟨?_, h.eof_or_broke⟩
  rw [eofReached_succ hget, hm, h.closed_iff]
  simp

theorem ClosedAt.atEof {m : Msg} (h : ClosedAt M broke last stdin eof) (hget : M[last]? = some m)
    (hm : m.isEof = true) : ClosedAt M broke (last + 1) none (eof || stdin.isSome) := by
  refine ⟨by simp [eofReached_succ hget, hm], fun _ => ?_⟩
  by_cases hopen : stdin = none
  · refine (h.eof_or_broke hopen).imp_left fun heof => ?_
    rw [heof, Bool.true_or]
  · left
    rw [Option.isSome_iff_ne_none.mpr hopen, Bool.or_true]

end

namespace Session

variable {M : List Msg} {broke : Bool} {s s' : Session}

def Closed (M : List Msg) (broke : Bool) (s : Session) : Prop :=
  ClosedAt M broke s.task.lastClientSeq s.task.stdin s.trace.eof

theorem Closed.endOfLoop (h : Closed M broke s) : Closed M broke s.endOfLoop := by
  rcases s.endOfLoop_cases with heq | ⟨code, -, -, -, heq⟩
  · rw [heq]
    exact h
  · rw [heq]
    exact h

theorem Closed.applyStdin {seq : Nat} {data : Data}
    (h : ClosedAt M broke seq s.task.stdin s.trace.eof) :
    Closed M broke (s.applyStdin seq data) := by
  unfold Session.applyStdin
  dsimp only
  split_ifs
  · exact Closed.endOfLoop (s := { s with
      stdinApplied := seq, task := { s.task with lastClientSeq := seq } }) h
  · exact h

theorem Closed.onInput {input : SessionInput} (h : Closed M broke s)
    (hoffer : Offers M s.task.lastClientSeq input) (hn : Numbered ChannelMessage.seq? M) :
    Closed M broke (s.onInput input) := by
  unfold Session.onInput
  split
  · split_ifs with hacc
    · obtain ⟨rfl, hget⟩ := hoffer.accepted hn rfl rfl hacc
      exact Closed.applyStdin (ClosedAt.next h hget rfl)
    · exact h.endOfLoop
  · split_ifs with hacc
    · obtain ⟨rfl, hget⟩ := hoffer.accepted_datagram hn rfl hacc
      exact Closed.applyStdin (ClosedAt.next h hget rfl)
    · exact h.endOfLoop
  · exact h.endOfLoop
  · split_ifs with hacc
    · obtain ⟨rfl, hget⟩ := hoffer.accepted hn rfl rfl hacc
      exact Closed.endOfLoop (ClosedAt.atEof h hget rfl)
    · exact h.endOfLoop
  · exact h.endOfLoop
  · exact h
  · exact h

/-- Every step of the task closes stdin only for `StdinEof` or a failed write. -/
theorem Closed.taskStep {e : TaskEvent} (h : Closed M broke s) (ha : Applies M s)
    (hs : s.taskStep e = some s') (hn : Numbered ChannelMessage.seq? M) :
    Closed M (broke || decide (e = .stdinFailed)) s' := by
  by_cases he : e = .stdinFailed
  · subst he
    cases TaskStep.of_taskStep hs with
    | writeFailed =>
      apply Closed.endOfLoop
      exact ⟨by simp [setTask], fun _ => .inr (by simp)⟩
  rw [decide_eq_false he, Bool.or_false]
  cases TaskStep.of_taskStep hs with
  | @output stream r =>
    have hclose : Closed M broke (s.closeStream stream) := by cases stream <;> exact h
    cases r with
    | data bytes => exact Closed.endOfLoop h
    | eof => exact hclose.endOfLoop
    | error => exact hclose.endOfLoop
  | @exit r =>
    obtain ⟨code, line, ht⟩ := s.task.readExit_eq r
    unfold Session.onExit
    rw [ht]
    dsimp only
    split_ifs
    · exact h
    · exact Closed.endOfLoop h
  | @recv input rest hp hq =>
    have hgap := ha.noGap
    rw [hq] at hgap
    exact Closed.onInput (s := { s with inbound := rest }) h hgap.1 hn
  | recvNone => exact h
  | wrotePart => exact h
  | wroteAll => exact Closed.endOfLoop h
  | writeFailed => exact absurd rfl he
  | reaped => exact h.endOfLoop
  | aborted => exact h

end Session

/-! ## The run -/

/-- What the child got and what the session published, against what the client numbered. -/
structure Overlap.Deduplicated (o : Overlap) : Prop where
  /-- All that is missing at the child is the rest of the chunk being written. -/
  wrote : o.broke = false → o.session.trace.wrote ++ o.session.task.phase.unwritten =
    stdinData (o.numbered.take o.session.task.lastClientSeq)
  applied : (∀ rest, o.session.task.phase ≠ .writing rest) →
    o.session.stdinApplied = o.session.task.lastClientSeq
  monotone : ∀ l o', o.step l = some o' → o.session.stdinApplied ≤ o'.session.stdinApplied
  closed : o.session.task.stdin = none ↔
    EofReached o.numbered o.session.task.lastClientSeq ∨ o.broke = true

/-- **The invariant.** No stream is ahead of what the queue leads up to. -/
structure Overlap.Ok (o : Overlap) : Prop where
  numbered : Numbered ChannelMessage.seq? o.numbered
  stdin : ∀ m ∈ o.numbered, m.isStdin = true
  eof_last : ∀ x m, o.numbered[x]? = some m → m.isEof = true → x + 1 = o.numbered.length
  applies : o.session.Applies o.numbered
  behind : ∀ x ∈ o.streams, x ≤ o.session.reach
  settled : o.session.Settled
  closed : o.session.Closed o.numbered o.broke

namespace Overlap

variable {o o' : Overlap}

theorem ok_start (resumable agent : Bool) (stdin stdout stderr exit : Fd) (pgid : Int32) :
    Ok (start (.start resumable agent (.start stdin stdout stderr exit pgid))) where
  numbered := Numbered.nil
  stdin m h := by simp [start] at h
  eof_last x m h := by simp [start] at h
  applies := ⟨trivial, le_rfl, le_rfl, fun _ => rfl, List.nil_prefix, fun _ => rfl,
    fun h => by cases h⟩
  behind x h := by simp [start] at h
  settled := .inr rfl
  closed := ⟨by simp [start, EofReached, Session.start, Task.start], fun h => by cases h⟩

theorem Ok.number {m : Nat → Msg} (h : Ok o) (hs : o.number m = some o')
    (hm : ∀ n, (m n).seq? = some n) (hstdin : ∀ n, (m n).isStdin = true) : Ok o' := by
  unfold Overlap.number at hs
  split_ifs at hs with hany
  cases hs
  have hno : ∀ m ∈ o.numbered, m.isEof = false := by simpa using hany
  have hlen := h.applies.last_le
  refine ⟨h.numbered.concat (hm _), ?_, ?_, h.applies.concat _ hno, h.behind, h.settled, ?_⟩
  · intro m' hm'
    rcases List.mem_append.mp hm' with hm' | hm'
    · exact h.stdin m' hm'
    · rw [List.mem_singleton.mp hm']
      exact hstdin _
  · intro x m' hget heof
    rcases Nat.lt_or_ge x o.numbered.length with hlt | hge
    · rw [List.getElem?_append_left hlt] at hget
      rw [hno m' (List.mem_of_getElem? hget)] at heof
      cases heof
    · have := (List.getElem?_eq_some_iff.mp hget).1
      simp only [List.length_append, List.length_singleton] at this ⊢
      omega
  · refine ⟨?_, h.closed.eof_or_broke⟩
    have htake := take_mono (List.prefix_append o.numbered [m (o.numbered.length + 1)]) hlen
    rw [h.closed.closed_iff, EofReached, EofReached, htake]

/-- A message that is at or before the next one is queued. -/
theorem Ok.enqueue {input : SessionInput} (h : Ok o)
    (hin : Offers o.numbered o.session.reach input) :
    Ok { o with session := o.session.enqueue input } := by
  refine ⟨h.numbered, h.stdin, h.eof_last, h.applies.enqueue hin, ?_, h.settled, h.closed⟩
  intro x hx
  refine (h.behind x hx).trans ?_
  show _ ≤ reach _ (o.session.inbound ++ [input])
  rw [reach_concat]
  exact SessionInput.le_advance _ _

/-- Delivering a message takes the queue at least to where the stream goes on. -/
theorem Ok.reach_deliver {m : Msg} {x : Nat} (h : Ok o) (hget : o.numbered[x]? = some m) :
    x + 1 ≤ (o.session.enqueue (.message m)).reach := by
  show _ ≤ reach _ (o.session.inbound ++ [.message m])
  rw [reach_concat]
  exact Offers.lt_advance h.numbered hget (h.stdin m (List.mem_of_getElem? hget))

theorem Ok.deliver {stream : Nat} (h : Ok o) (hs : o.deliver stream = some o') : Ok o' := by
  obtain ⟨x, hx, hs⟩ := Option.bind_eq_some_iff.mp hs
  obtain ⟨m, hget, rfl⟩ := Option.map_eq_some_iff.mp hs
  have hbehind := h.behind x (List.mem_of_getElem? hx)
  have hoffer : Offers o.numbered o.session.reach (.message m) := fun _ => ⟨x, hbehind, hget⟩
  have hq := h.enqueue hoffer
  refine ⟨hq.numbered, hq.stdin, hq.eof_last, hq.applies, ?_, hq.settled, hq.closed⟩
  intro y hy
  rcases List.mem_or_eq_of_mem_set hy with hy | rfl
  · exact hq.behind y hy
  · exact h.reach_deliver hget

theorem Ok.taskStep {s' : Session} {e : TaskEvent} (h : Ok o)
    (hs : o.session.taskStep e = some s') :
    Ok { o with session := s', broke := o.broke || decide (e = .stdinFailed) } where
  numbered := h.numbered
  stdin := h.stdin
  eof_last := h.eof_last
  applies := (h.applies.taskStep hs h.numbered h.eof_last).applies
  behind x hx := (h.behind x hx).trans_eq (h.applies.taskStep hs h.numbered h.eof_last).reach_eq.symm
  settled := (Session.Applying.taskStep ⟨h.settled, Nat.zero_le _⟩ hs).settled
  closed := h.closed.taskStep h.applies hs h.numbered

theorem Ok.step {l : OverlapLabel} (h : Ok o) (hs : o.step l = some o') : Ok o' := by
  cases l with
  | stdinData data => exact h.number (m := (.stdin · data)) hs (fun _ => rfl) (fun _ => rfl)
  | stdinEof => exact h.number hs (fun _ => rfl) (fun _ => rfl)
  | begin k =>
    simp only [Overlap.step] at hs
    split_ifs at hs with hk
    cases hs
    refine ⟨h.numbered, h.stdin, h.eof_last, h.applies, ?_, h.settled, h.closed⟩
    intro x hx
    rcases List.mem_append.mp hx with hx | hx
    · exact h.behind x hx
    · rw [List.mem_singleton.mp hx]
      exact hk.trans (le_reach _ _)
  | deliver stream => exact h.deliver hs
  | datagram x =>
    obtain ⟨m, hget, rfl⟩ := Option.map_eq_some_iff.mp hs
    exact h.enqueue (List.mem_of_getElem? hget)
  | task e =>
    obtain ⟨s', hs', rfl⟩ := Option.map_eq_some_iff.mp hs
    exact h.taskStep hs'

theorem ok_of_reachable (h : overlapMachine.Reachable o) : Ok o := by
  refine h.invariant ?_ fun _ _ _ hok _ hs => hok.step hs
  rintro o ⟨resumable, agent, stdin, stdout, stderr, exit, pgid, rfl⟩
  exact ok_start ..

/-- Without a failed write, nothing that was applied is missing at the child. -/
theorem Ok.wrote (h : Ok o) (hb : o.broke = false) :
    o.session.trace.wrote ++ o.session.task.phase.unwritten =
      stdinData (o.numbered.take o.session.task.lastClientSeq) := by
  by_cases hopen : o.session.task.stdin = none
  · -- Closed without a failure: `StdinEof` came, and it is the last message.
    have hor := h.closed.closed_iff.mp hopen
    have heof := h.closed.eof_or_broke hopen
    rw [hb] at hor heof
    have hend := (hor.resolve_right (by simp)).eq_length h.applies.last_le h.eof_last
    rw [h.applies.rest_eq hopen, (h.applies.eof_eq (heof.resolve_right (by simp))).2.1, hend,
      List.take_length, List.append_nil]
  · exact h.applies.wrote_eq (Option.isSome_iff_ne_none.mpr hopen)

theorem Ok.applied_le {l : OverlapLabel} (h : Ok o) (hs : o.step l = some o') :
    o.session.stdinApplied ≤ o'.session.stdinApplied := by
  cases l with
  | task e =>
    obtain ⟨s', hs', rfl⟩ := Option.map_eq_some_iff.mp hs
    exact (h.applies.taskStep hs' h.numbered h.eof_last).applied_le
  | stdinData data =>
    simp only [Overlap.step, Overlap.number] at hs
    split_ifs at hs
    cases hs
    exact le_rfl
  | stdinEof =>
    simp only [Overlap.step, Overlap.number] at hs
    split_ifs at hs
    cases hs
    exact le_rfl
  | begin k =>
    simp only [Overlap.step] at hs
    split_ifs at hs
    cases hs
    exact le_rfl
  | deliver stream =>
    obtain ⟨x, -, hs⟩ := Option.bind_eq_some_iff.mp hs
    obtain ⟨m, -, rfl⟩ := Option.map_eq_some_iff.mp hs
    exact le_rfl
  | datagram x =>
    obtain ⟨m, -, rfl⟩ := Option.map_eq_some_iff.mp hs
    exact le_rfl

/-- **Overlapping streams and stray datagrams are deduplicated.** -/
theorem stdin_deduplicated (h : overlapMachine.Reachable o) : Deduplicated o :=
  have hok := ok_of_reachable h
  ⟨hok.wrote, hok.settled.eq, fun _ _ => hok.applied_le, hok.closed.closed_iff⟩

/-- Two streams overlap: the first delivers both chunks; a second one starts at the first chunk
again and goes on to the end of stdin. Datagrams of both chunks come early, late and twice. -/
def overlappingRun : List OverlapLabel :=
  [.stdinData [97], .stdinData [98, 99], .begin 0, .datagram 1, .task .recv, .deliver 0,
   .task .recv, .begin 0, .datagram 0, .task (.stdinWritten 1), .task .recv, .deliver 1,
   .deliver 0, .deliver 1, .datagram 1, .task .recv, .task .recv, .task (.stdinWritten 1),
   .task (.stdinWritten 1), .stdinEof, .task .recv, .deliver 1, .datagram 0, .task .recv,
   .task .recv, .task .recv]

def afterOverlap : Overlap :=
  (overlapMachine.run (.start .fresh) overlappingRun).get (by decide)

theorem afterOverlap_deduplicated :
    overlapMachine.Reachable afterOverlap ∧ afterOverlap.session.trace.wrote = [97, 98, 99] ∧
    afterOverlap.session.stdinApplied = 3 ∧ afterOverlap.session.task.stdin = none ∧
    Deduplicated afterOverlap := by
  have hreach : overlapMachine.Reachable afterOverlap :=
    Machine.reachable_of_run ⟨true, false, .pipe 0, .pipe 1, .pipe 2, .pipe 3, 7, rfl⟩
      (Option.some_get _).symm
  exact ⟨hreach, by decide, by decide, by decide, stdin_deduplicated hreach⟩

end Overlap

end HerdrEternal
