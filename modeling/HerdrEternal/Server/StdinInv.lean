import HerdrEternal.Client.Resend
import HerdrEternal.Server.SessionInv

/-!
# What a session has applied of the client's stdin

The task takes a stream message for the next one when its number is larger than the last one it
applied. Let `M` be everything the client numbered. This file shows that the task writes the data
of `M` in order and without gaps, provided that its input queue never *offers* a message too
early: when its turn comes, everything before it in `M` was applied.

* `reach`: the number the task will have applied once its queue is empty.
* `NoGap`: no message of the queue comes too early.
* `Applies`: what was written is the data of the messages applied so far, as far as the child's
  stdin is open, and a `StdinEof` closes it only at the end of `M`. `Applies.taskStep` is the
  step lemma.
-/

namespace HerdrEternal

open History

/-! ## The input queue -/

/-- The last applied number once the task took an input. -/
def SessionInput.advance (last : Nat) : SessionInput → Nat
  | .message (.stdin seq _) | .message (.stdinEof seq) =>
    if acceptStream seq last then seq else last
  | .datagram (.stdin seq _) => if acceptDatagram seq last then seq else last
  | _ => last

/-- The last applied number once the task took all of a queue. -/
def reach (last : Nat) (q : List SessionInput) : Nat := q.foldl SessionInput.advance last

/-- A stream message that is offered after `last` is at or before the next one. -/
def Offers (M : List Msg) (last : Nat) : SessionInput → Prop
  | .message m => m.isStdin = true → ∃ x ≤ last, M[x]? = some m
  | .datagram m => m ∈ M
  | _ => True

/-- Every message of the queue is offered in time. -/
def NoGap (M : List Msg) : Nat → List SessionInput → Prop
  | _, [] => True
  | last, input :: q => Offers M last input ∧ NoGap M (input.advance last) q

section

variable {M M' : List Msg} {last : Nat} {q : List SessionInput} {input : SessionInput}

theorem SessionInput.le_advance (last : Nat) (input : SessionInput) :
    last ≤ input.advance last := by
  unfold advance
  split
  · split_ifs with h
    · exact (decide_eq_true_eq.mp h).le
    · exact le_rfl
  · split_ifs with h
    · exact (decide_eq_true_eq.mp h).le
    · exact le_rfl
  · split_ifs with h
    · rw [decide_eq_true_eq.mp h]
      exact Nat.le_succ _
    · exact le_rfl
  · exact le_rfl

theorem le_reach (last : Nat) (q : List SessionInput) : last ≤ reach last q := by
  induction q generalizing last with
  | nil => exact le_rfl
  | cons input q ih => exact (input.le_advance last).trans (ih _)

theorem reach_concat (last : Nat) (q : List SessionInput) (input : SessionInput) :
    reach last (q ++ [input]) = input.advance (reach last q) := by
  simp [reach]

theorem Offers.mono (h : Offers M last input) (hM : M <+: M') : Offers M' last input := by
  cases input with
  | message m =>
    intro hm
    obtain ⟨x, hx, hget⟩ := h hm
    exact ⟨x, hx, getElem?_mono hM hget⟩
  | datagram m => exact hM.subset h
  | abort => trivial
  | handover => trivial

theorem NoGap.mono (h : NoGap M last q) (hM : M <+: M') : NoGap M' last q := by
  induction q generalizing last with
  | nil => trivial
  | cons input q ih => exact ⟨h.1.mono hM, ih h.2⟩

/-- A message may be queued once the queue leads up to it. -/
theorem NoGap.concat (h : NoGap M last q) (hin : Offers M (reach last q) input) :
    NoGap M last (q ++ [input]) := by
  induction q generalizing last with
  | nil => exact ⟨hin, trivial⟩
  | cons i q ih => exact ⟨h.1, ih h.2 hin⟩

theorem Offers.accepted {m : Msg} {seq : Nat} (h : Offers M last (.message m))
    (hn : Numbered ChannelMessage.seq? M) (hm : m.isStdin = true) (hseq : m.seq? = some seq)
    (hacc : acceptStream seq last = true) : seq = last + 1 ∧ M[last]? = some m := by
  obtain ⟨x, hx, hget⟩ := h hm
  have hlt : last < seq := decide_eq_true_eq.mp hacc
  have := hn x m hget
  rw [hseq, Option.some.injEq] at this
  have hxl : x = last := by omega
  subst hxl
  exact ⟨this, hget⟩

theorem Offers.accepted_datagram {m : Msg} {seq : Nat} (h : Offers M last (.datagram m))
    (hn : Numbered ChannelMessage.seq? M) (hseq : m.seq? = some seq)
    (hacc : acceptDatagram seq last = true) : seq = last + 1 ∧ M[last]? = some m := by
  have heq : seq = last + 1 := decide_eq_true_eq.mp hacc
  refine ⟨heq, ?_⟩
  have := (hn.getElem? h hseq).2.2
  rwa [heq] at this

/-- A stream message leads the queue up to itself. -/
theorem Offers.lt_advance (hn : Numbered ChannelMessage.seq? M) {x n : Nat} {m : Msg}
    (hget : M[x]? = some m) (hm : m.isStdin = true) :
    x + 1 ≤ (SessionInput.message m).advance n := by
  have hseq := hn x m hget
  have hmax : ∀ seq, m.seq? = some seq → x + 1 ≤ if acceptStream seq n then seq else n := by
    intro seq hs
    rw [hseq, Option.some.injEq] at hs
    subst hs
    split_ifs with hacc
    · exact le_rfl
    · have : ¬ n < x + 1 := fun h => hacc (decide_eq_true h)
      omega
  cases m with
  | stdin seq data => exact hmax seq rfl
  | stdinEof seq => exact hmax seq rfl
  | _ => cases hm

theorem stdinData_take_succ {m : Msg} (h : M[last]? = some m) :
    stdinData (M.take (last + 1)) = stdinData (M.take last) ++ m.stdinBytes := by
  rw [List.take_add_one, h, stdinData_append]
  simp [stdinData]

theorem stdinData_take_le (M : List Msg) (n : Nat) : stdinData (M.take n) <+: stdinData M := by
  conv_rhs => rw [← List.take_append_drop n M, stdinData_append]
  exact List.prefix_append _ _

end

/-! ## What was written -/

/-- `wrote` is the data of the first `last` messages of `M`, but for the `rest` that is being
written; once stdin is closed, nothing more is written. -/
structure AppliesAt (M : List Msg) (q : List SessionInput) (last applied : Nat)
    (stdin : Option Fd) (wrote : Data) (eof : Bool) (rest : Data) : Prop where
  noGap : NoGap M last q
  last_le : last ≤ M.length
  applied_le : applied ≤ last
  wrote_eq : stdin.isSome = true → wrote ++ rest = stdinData (M.take last)
  wrote_le : wrote <+: stdinData (M.take last)
  rest_eq : stdin = none → rest = []
  eof_eq : eof = true → stdin = none ∧ wrote = stdinData M ∧ ∃ m ∈ M, m.isEof = true

/-- The data a suspended write has not written yet. -/
def Phase.unwritten : Phase → Data
  | .writing rest => rest
  | _ => []

namespace Session

variable {M : List Msg} {s s' : Session}

/-- The session applied the client's messages in order. -/
def Applies (M : List Msg) (s : Session) : Prop :=
  AppliesAt M s.inbound s.task.lastClientSeq s.stdinApplied s.task.stdin s.trace.wrote s.trace.eof
    s.task.phase.unwritten

/-- The number the task will have applied once its queue is empty. -/
def reach (s : Session) : Nat := HerdrEternal.reach s.task.lastClientSeq s.inbound

theorem Applies.of_phase {p : Phase} (h : Applies M s) (hp : s.task.phase = p) :
    AppliesAt M s.inbound s.task.lastClientSeq s.stdinApplied s.task.stdin s.trace.wrote
      s.trace.eof p.unwritten :=
  hp ▸ h

/-- What a step of the task leaves as it was. -/
structure Advances (M : List Msg) (s s' : Session) : Prop where
  applies : Applies M s'
  reach_eq : s'.reach = s.reach
  applied_le : s.stdinApplied ≤ s'.stdinApplied

/-- The end of the loop body does not touch stdin. -/
theorem Advances.endOfLoop {t : Session}
    (ht : AppliesAt M t.inbound t.task.lastClientSeq t.stdinApplied t.task.stdin t.trace.wrote
      t.trace.eof []) (hr : t.reach = s.reach) (hl : s.stdinApplied ≤ t.stdinApplied) :
    Advances M s t.endOfLoop := by
  rcases t.endOfLoop_cases with heq | ⟨code, -, -, -, heq⟩
  · rw [heq]
    exact ⟨ht, hr, hl⟩
  · rw [heq]
    exact ⟨ht, hr, hl⟩

theorem Advances.skip {input : SessionInput} {rest : List SessionInput}
    (h : AppliesAt M s.inbound s.task.lastClientSeq s.stdinApplied s.task.stdin s.trace.wrote
      s.trace.eof []) (hq : s.inbound = input :: rest)
    (hadv : input.advance s.task.lastClientSeq = s.task.lastClientSeq) :
    Advances M s { s with inbound := rest }.endOfLoop := by
  have hgap := h.noGap
  rw [hq] at hgap
  refine Advances.endOfLoop ⟨hadv ▸ hgap.2, h.last_le, h.applied_le, h.wrote_eq, h.wrote_le,
    h.rest_eq, h.eof_eq⟩ ?_ le_rfl
  show HerdrEternal.reach _ rest = HerdrEternal.reach _ s.inbound
  rw [hq, HerdrEternal.reach, HerdrEternal.reach, List.foldl_cons, hadv]

/-- The next message of `M` has come, and its data is about to be written. -/
theorem AppliesAt.next {m : Msg} {input : SessionInput} {rest q : List SessionInput}
    {last applied : Nat} {stdin : Option Fd} {wrote : Data} {eof : Bool}
    (h : AppliesAt M q last applied stdin wrote eof []) (hq : q = input :: rest)
    (hadv : input.advance last = last + 1) (hget : M[last]? = some m) :
    NoGap M (last + 1) rest ∧ last + 1 ≤ M.length ∧
      (stdin.isSome = true → wrote ++ m.stdinBytes = stdinData (M.take (last + 1))) ∧
      wrote <+: stdinData (M.take (last + 1)) := by
  have hgap := h.noGap
  rw [hq] at hgap
  rw [stdinData_take_succ hget]
  refine ⟨hadv ▸ hgap.2, Nat.succ_le_of_lt (List.getElem?_eq_some_iff.mp hget).1, ?_,
    h.wrote_le.trans (List.prefix_append _ _)⟩
  intro hopen
  rw [← h.wrote_eq hopen, List.append_nil]

section

variable {input : SessionInput} {rest : List SessionInput}
  (h : AppliesAt M s.inbound s.task.lastClientSeq s.stdinApplied s.task.stdin s.trace.wrote
    s.trace.eof [])
  (hq : s.inbound = input :: rest)
  (hadv : input.advance s.task.lastClientSeq = s.task.lastClientSeq + 1)
include h hq hadv

omit h in
theorem reach_next : HerdrEternal.reach (s.task.lastClientSeq + 1) rest = s.reach := by
  unfold Session.reach
  rw [hq, HerdrEternal.reach, HerdrEternal.reach, List.foldl_cons, hadv]

theorem Advances.applyStdin {data : Data}
    (hget : M[s.task.lastClientSeq]? = some (.stdin (s.task.lastClientSeq + 1) data)) :
    Advances M s ({ s with inbound := rest }.applyStdin (s.task.lastClientSeq + 1) data) := by
  obtain ⟨hgap, hle, hwrote, hpre⟩ := AppliesAt.next h hq hadv hget
  have hreach := reach_next hq hadv
  have happlied := h.applied_le
  unfold Session.applyStdin
  dsimp only
  split_ifs with hdone
  · -- Nothing to write: stdin is closed, or the chunk is empty.
    have hnow : AppliesAt M rest (s.task.lastClientSeq + 1) (s.task.lastClientSeq + 1) s.task.stdin
        s.trace.wrote s.trace.eof [] := by
      refine ⟨hgap, hle, le_rfl, ?_, hpre, fun _ => rfl, h.eof_eq⟩
      intro hopen
      rw [← hwrote hopen]
      rcases Bool.or_eq_true _ _ |>.mp hdone with hnone | hempty
      · have hnone : s.task.stdin = none := Option.isNone_iff_eq_none.mp hnone
        rw [hnone] at hopen
        cases hopen
      · rw [List.isEmpty_iff.mp hempty]
        rfl
    exact Advances.endOfLoop hnow hreach (happlied.trans (Nat.le_succ _))
  · simp only [Bool.or_eq_true, not_or, Option.isNone_iff_eq_none] at hdone
    refine ⟨⟨hgap, hle, happlied.trans (Nat.le_succ _), hwrote, hpre, ?_, h.eof_eq⟩, hreach, le_rfl⟩
    intro hnone
    exact absurd hnone hdone.1

/-- Taking the end of stdin, which is the last message of `M`. -/
theorem Advances.applyEof
    (hlast : ∀ x m, M[x]? = some m → m.isEof = true → x + 1 = M.length)
    (hget : M[s.task.lastClientSeq]? = some (.stdinEof (s.task.lastClientSeq + 1))) :
    Advances M s ({ s with inbound := rest }.applyEof (s.task.lastClientSeq + 1)) := by
  obtain ⟨hgap, hle, hwrote, hpre⟩ := AppliesAt.next h hq hadv hget
  have hreach := reach_next hq hadv
  have hend := hlast _ _ hget rfl
  have hnow : AppliesAt M rest (s.task.lastClientSeq + 1) (s.task.lastClientSeq + 1) none
      s.trace.wrote (s.trace.eof || s.task.stdin.isSome) [] := by
    refine ⟨hgap, hle, le_rfl, by simp, hpre, fun _ => rfl, fun heof => ⟨rfl, ?_⟩⟩
    rcases Bool.or_eq_true _ _ |>.mp heof with heof | hopen
    · exact (h.eof_eq heof).2
    · have := hwrote hopen
      rw [hend, List.take_length] at this
      exact ⟨(List.append_nil _).symm.trans this, _, List.mem_of_getElem? hget, rfl⟩
  exact Advances.endOfLoop hnow hreach (h.applied_le.trans (Nat.le_succ _))

end

theorem Advances.onInput {input : SessionInput} {rest : List SessionInput}
    (h : AppliesAt M s.inbound s.task.lastClientSeq s.stdinApplied s.task.stdin s.trace.wrote
      s.trace.eof []) (hq : s.inbound = input :: rest)
    (hn : Numbered ChannelMessage.seq? M)
    (hlast : ∀ x m, M[x]? = some m → m.isEof = true → x + 1 = M.length) :
    Advances M s ({ s with inbound := rest }.onInput input) := by
  have hoffer : Offers M s.task.lastClientSeq input := by
    have := h.noGap
    rw [hq] at this
    exact this.1
  have hskip := Advances.skip h hq
  -- Inputs that end the task leave the queue's messages where they are.
  have hstop : ∀ p : Phase, p.unwritten = [] → input.advance s.task.lastClientSeq =
      s.task.lastClientSeq →
        Advances M s { s with inbound := rest, task := { s.task with phase := p } } := by
    intro p hp' hadv
    have hgap := h.noGap
    rw [hq] at hgap
    refine ⟨⟨hadv ▸ hgap.2, h.last_le, h.applied_le, ?_, h.wrote_le, fun _ => hp', h.eof_eq⟩, ?_,
      le_rfl⟩
    · show _ → _ ++ p.unwritten = _
      rw [hp']
      exact h.wrote_eq
    · show HerdrEternal.reach _ rest = HerdrEternal.reach _ s.inbound
      rw [hq, HerdrEternal.reach, HerdrEternal.reach, List.foldl_cons, hadv]
  unfold Session.onInput
  split
  · rename_i seq data
    split_ifs with hacc
    · obtain ⟨rfl, hget⟩ := hoffer.accepted hn rfl rfl hacc
      refine Advances.applyStdin h hq ?_ hget
      simp only [SessionInput.advance, if_pos hacc]
    · exact hskip (by simp only [SessionInput.advance, if_neg hacc])
  · rename_i seq data
    split_ifs with hacc
    · obtain ⟨rfl, hget⟩ := hoffer.accepted_datagram hn rfl hacc
      refine Advances.applyStdin h hq ?_ hget
      simp only [SessionInput.advance, if_pos hacc]
    · exact hskip (by simp only [SessionInput.advance, if_neg hacc])
  · rename_i m hm
    refine hskip ?_
    cases m with
    | stdin seq data => exact absurd rfl (hm seq data)
    | _ => rfl
  · rename_i seq
    split_ifs with hacc
    · obtain ⟨rfl, hget⟩ := hoffer.accepted hn rfl rfl hacc
      refine Advances.applyEof h hq ?_ hlast hget
      simp only [SessionInput.advance, if_pos hacc]
    · exact hskip (by simp only [SessionInput.advance, if_neg hacc])
  · rename_i m hm hm'
    refine hskip ?_
    cases m with
    | stdin seq data => exact absurd rfl (hm seq data)
    | stdinEof seq => exact absurd rfl (hm' seq)
    | _ => rfl
  · exact hstop _ rfl rfl
  · refine hstop _ ?_ rfl
    split_ifs <;> rfl

theorem AppliesAt.write {q : List SessionInput} {last applied : Nat} {stdin : Option Fd}
    {wrote rest : Data} {eof : Bool} (h : AppliesAt M q last applied stdin wrote eof rest)
    (hrest : rest ≠ []) (n : Nat) :
    AppliesAt M q last applied stdin (wrote ++ rest.take n) eof (rest.drop n) := by
  have hopen : stdin.isSome = true := by
    by_contra hc
    exact hrest (h.rest_eq (by simpa using hc))
  have hall : (wrote ++ rest.take n) ++ rest.drop n = stdinData (M.take last) := by
    rw [List.append_assoc, List.take_append_drop, h.wrote_eq hopen]
  refine ⟨h.noGap, h.last_le, h.applied_le, fun _ => hall, ?_, ?_, ?_⟩
  · rw [← hall]
    exact List.prefix_append _ _
  · intro hnone
    rw [hnone] at hopen
    cases hopen
  · intro heof
    rw [(h.eof_eq heof).1] at hopen
    cases hopen

/-- Every step of the task applies the client's messages in order. -/
theorem Applies.taskStep {e : TaskEvent} (h : Applies M s) (hs : s.taskStep e = some s')
    (hn : Numbered ChannelMessage.seq? M)
    (hlast : ∀ x m, M[x]? = some m → m.isEof = true → x + 1 = M.length) : Advances M s s' := by
  cases TaskStep.of_taskStep hs with
  | @output stream r hp =>
    cases r with
    | data bytes => exact Advances.endOfLoop (h.of_phase hp) rfl le_rfl
    | eof => cases stream <;> exact Advances.endOfLoop (h.of_phase hp) rfl le_rfl
    | error => cases stream <;> exact Advances.endOfLoop (h.of_phase hp) rfl le_rfl
  | @exit r hp =>
    obtain ⟨code, line, ht⟩ := s.task.readExit_eq r
    unfold Session.onExit
    rw [ht]
    dsimp only
    split_ifs
    · exact ⟨(h.of_phase hp :), rfl, le_rfl⟩
    · exact Advances.endOfLoop (h.of_phase hp) rfl le_rfl
  | recv hp hq => exact Advances.onInput (h.of_phase hp) hq hn hlast
  | recvNone hp =>
    have hsel := h.of_phase hp
    refine ⟨?_, rfl, le_rfl⟩
    unfold Applies abort setTask
    dsimp only
    split_ifs
    · exact hsel
    · exact hsel
  | @wrotePart rest n hp hpos hlt =>
    have hrest : rest ≠ [] := List.ne_nil_of_length_pos (hpos.trans hlt)
    exact ⟨AppliesAt.write (h.of_phase hp) hrest n, rfl, le_rfl⟩
  | @wroteAll rest hp hpos =>
    have hw := AppliesAt.write (h.of_phase hp) (List.ne_nil_of_length_pos hpos) rest.length
    rw [Phase.unwritten, List.take_length, List.drop_length] at hw
    refine Advances.endOfLoop ⟨hw.noGap, hw.last_le, le_rfl, hw.wrote_eq, hw.wrote_le, hw.rest_eq,
      hw.eof_eq⟩ rfl hw.applied_le
  | @writeFailed rest hp =>
    have hw := h.of_phase hp
    refine Advances.endOfLoop ⟨hw.noGap, hw.last_le, le_rfl, (fun h => by cases h), hw.wrote_le,
      fun _ => rfl, ?_⟩
      rfl hw.applied_le
    intro heof
    exact ⟨rfl, (hw.eof_eq heof).2⟩
  | reaped hp => exact Advances.endOfLoop (h.of_phase hp) rfl le_rfl
  | aborted hp => exact ⟨(h.of_phase hp :), rfl, le_rfl⟩

/-! ## What connections and the client do -/

theorem Applies.enqueue (h : Applies M s) {input : SessionInput} (hin : Offers M s.reach input) :
    Applies M (s.enqueue input) :=
  ⟨h.noGap.concat hin, h.last_le, h.applied_le, h.wrote_eq, h.wrote_le, h.rest_eq, h.eof_eq⟩

theorem Applies.concat (h : Applies M s) (m : Msg) (hno : ∀ m ∈ M, m.isEof = false) :
    Applies (M ++ [m]) s := by
  have htake : (M ++ [m]).take s.task.lastClientSeq = M.take s.task.lastClientSeq :=
    List.take_append_of_le_length h.last_le
  refine ⟨h.noGap.mono (List.prefix_append _ _), ?_, h.applied_le, ?_, ?_, h.rest_eq, ?_⟩
  · exact h.last_le.trans (by simp)
  · rw [htake]
    exact h.wrote_eq
  · rw [htake]
    exact h.wrote_le
  · intro heof
    obtain ⟨-, -, m', hm', heof'⟩ := h.eof_eq heof
    rw [hno m' hm'] at heof'
    cases heof'

end Session

end HerdrEternal
