import HerdrEternal.System.Wakeup

/-!
# What a connection leaves behind

A session that is not resumable must not outlive its connection: when `attach` returns, the
session's token is to be out of the registry and its task to have ended or to have been sent Abort
(`Cleaned`). Every exit of `attach` that is written out does that. The exits through `?` do nothing:
a send that fails, and a frame that cannot be decoded. They leave the session as they found it
(`cleaned_iff`).
-/

namespace HerdrEternal

namespace Session

/-- Abort is in the task's queue, or the task is carrying it out. -/
def sentAbort (s : Session) : Bool :=
  s.inbound.contains .abort || match s.task.phase with
    | .aborting => true
    | _ => false

/-- The token is gone, and the task has ended or has been sent Abort. -/
def Cleaned (s : Session) : Prop :=
  s.registered = false ∧ (s.ended = true ∨ s.sentAbort = true)

variable {s : Session}

theorem cleaned_detach (h : s.resumable = false) : s.detach.Cleaned := by
  have hdetach : s.detach = s.unregister.enqueue .abort := by simp [detach, h]
  rw [hdetach]
  refine ⟨rfl, .inr ?_⟩
  simp [sentAbort, enqueue]

end Session

namespace Serving

variable {x x' : Serving}

/-- The exits of `attach` through `?`. -/
def isQuestionMark (e : AttachEvent) : Bool :=
  match e with
  | .sendFailed | .badFrame => true
  | _ => false

theorem not_returned_goes {a b : Attach} {ms : List Msg} (h : b.Goes ms a) : a.pc ≠ .returned := by
  cases h with
  | waits hpc => rcases hpc with rfl | rfl <;> simp
  | sends => simp

/-- **One step of a call.** Where it returns, it has cleaned up, unless it left through `?`: then
the session is as it was. -/
theorem returns_cleaned {quic : Bool} {a a' : Attach} {s s' : Session} {e : AttachEvent}
    (hres : s.resumable = false) (hexit : ∀ n, a.exitSeq = some n → s.ended = true)
    (ha : a.step quic s e = some (a', s')) (hret : a'.pc = .returned) :
    if isQuestionMark e then s' = s else s'.Cleaned := by
  cases Attach.Step.of_step ha with
  | started => cases hret
  | snapshot => exact absurd hret (not_returned_goes (Attach.goes_loopTop _ _))
  | replayed => exact absurd hret (not_returned_goes (Attach.goes_replayNext _ _ _))
  | acked => cases hret
  | pinged => cases hret
  | sendFailed => exact rfl
  | expired => exact Session.cleaned_detach hres
  | tick => cases hret
  | changed => cases hret
  | delivered hp hdone =>
    -- the acknowledged Exit was logged by the task as its last act
    obtain ⟨n, hn⟩ : ∃ n, a.exitSeq = some n := by
      cases hseq : a.exitSeq with
      | none => simp [hseq] at hdone
      | some n => exact ⟨n, rfl⟩
    exact ⟨rfl, .inl (hexit n hn)⟩
  | trimmed => cases hret
  | frame => cases hret
  | datagram => cases hret
  | badDatagram => cases hret
  | badFrame => exact rfl
  | closed => exact Session.cleaned_detach hres
  | failed => exact Session.cleaned_detach hres

theorem conn_of_left {l : ServingLabel} {i : Nat} {c c' : Attached} (hs : x.step l = some x')
    (hget : x.conns[i]? = some c) (hget' : x'.conns[i]? = some c') (hrun : c.running = true)
    (hleft : c'.running = false) :
    ∃ e a s, l = .conn i e ∧ c.attach.step c.quic x.session e = some (a, s) ∧
      a.pc = .returned ∧ x'.session = s := by
  have hne : c' ≠ c := by
    rintro rfl
    rw [hrun] at hleft
    cases hleft
  have hsame : x.conns[i]? = some c' → False := fun h =>
    hne (Option.some.inj (h.symm.trans hget))
  cases Step.of_step hs with
  | task => exact (hsame hget').elim
  | publish => exact (hsame hget').elim
  | lose => exact (hsame hget').elim
  | handover => exact (hsame hget').elim
  | attach =>
    rcases Table.of_concat hget' with h | ⟨hi, -⟩
    · exact (hsame h).elim
    · have := Table.lt_of_getElem? hget
      omega
  | @conn j e d a s hd ha =>
    rcases Table.of_set hget' with ⟨rfl, rfl⟩ | ⟨-, h⟩
    · cases hget.symm.trans hd
      exact ⟨e, a, s, rfl, ha, of_not_not (of_decide_eq_false hleft), rfl⟩
    · exact (hsame h).elim
  | agentAttach => exact (hsame hget').elim
  | agentDetach => exact (hsame hget').elim
  | collect => exact (hsame hget').elim
  | expire => exact (hsame hget').elim

/-- **A session that is not resumable does not outlive its connection** exactly where the call does
not return through `?`, or the session had been cleaned up before. -/
theorem cleaned_iff (h : machine.Reachable x) (hres : x.session.resumable = false)
    {l : ServingLabel} {i : Nat} {c c' : Attached} (hs : x.step l = some x')
    (hget : x.conns[i]? = some c) (hget' : x'.conns[i]? = some c') (hrun : c.running = true)
    (hleft : c'.running = false) :
    x'.session.Cleaned ↔
      (l ≠ .conn i .sendFailed ∧ l ≠ .conn i .badFrame) ∨ x.session.Cleaned := by
  obtain ⟨e, a, s, rfl, ha, hret, rfl⟩ := conn_of_left hs hget hget' hrun hleft
  have hexit : ∀ n, c.attach.exitSeq = some n → x.session.ended = true := fun n hn =>
    (exit_ends (ok_under h) (watchful_under h i c hget).entries hn).1
  have hcleaned := returns_cleaned hres hexit ha hret
  simp only [ne_eq, ServingLabel.conn.injEq, true_and]
  cases e with
  | sendFailed =>
    have hsame : x'.session = x.session := hcleaned
    simp [hsame]
  | badFrame =>
    have hsame : x'.session = x.session := hcleaned
    simp [hsame]
  | _ => exact ⟨fun _ => .inl ⟨by simp, by simp⟩, fun _ => hcleaned⟩

/-- A session of a client that asked for no resumption. -/
def onceOnly : Session := .start false false (.start (.pipe 0) (.pipe 1) (.pipe 2) (.pipe 3) 42)

theorem wf_onceOnly : onceOnly.Wf := Session.wf_start _ _ _ _ _ _ _

/-- Its connection is about to be closed. -/
def connected : Serving :=
  (machine.run (start onceOnly) [.attach false "t" 0, .conn 0 .sent, .conn 0 .snapshot]).get
    (by decide)

def disconnected : Serving := (connected.step (.conn 0 .closed)).get (by decide)

theorem disconnected_cleaned :
    disconnected.session.registered = false ∧ disconnected.session.inbound = [.abort] ∧
    (disconnected.session.Cleaned ↔ (ServingLabel.conn 0 .closed ≠ .conn 0 .sendFailed ∧
      ServingLabel.conn 0 .closed ≠ .conn 0 .badFrame) ∨ connected.session.Cleaned) := by
  have hreach : machine.Reachable connected :=
    Machine.reachable_of_run ⟨_, wf_onceOnly, rfl, rfl⟩ (Option.some_get _).symm
  have hbefore : connected.conns[0]? = some (connected.conns.get ⟨0, by decide⟩) := by decide
  have hafter : disconnected.conns[0]? = some (disconnected.conns.get ⟨0, by decide⟩) := by decide
  exact ⟨by decide, by decide, cleaned_iff hreach (by decide) (Option.some_get _).symm hbefore
    hafter (by decide) (by decide)⟩

/-- The connection breaks while `Started` is being sent. -/
def startFailed : Serving :=
  (machine.run (start onceOnly) [.attach false "t" 0, .conn 0 .sendFailed]).get (by decide)

/-- The command goes on with nobody to reach it, and without an Abort. -/
theorem failed_start_not_cleaned :
    machine.Reachable startFailed ∧ startFailed.session.resumable = false ∧
    startFailed.conns.map Attached.running = [false] ∧
    startFailed.session.registered = true ∧ startFailed.session.task.phase = .select ∧
    startFailed.session.inbound = [] ∧ ¬ startFailed.session.Cleaned := by
  refine ⟨?_, by decide, by decide, by decide, by decide, by decide, fun h => ?_⟩
  · exact Machine.reachable_of_run ⟨_, wf_onceOnly, rfl, rfl⟩ (Option.some_get _).symm
  · exact absurd h.1 (by decide)

end Serving

end HerdrEternal
