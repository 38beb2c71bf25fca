import HerdrEternal.Lib.Table
import HerdrEternal.Server.PushSteps

/-!
# A session and all that is attached to it

One session of the daemon with everything that holds it: its task, the registry, any number of
running `attach` calls, the handlers of agent channels, and the expiry sweep between collecting the
session and aborting it.

**Sharing.** The task pushes in two steps. Each attach call has its own position and its own watch
receiver; all of them read and trim the one log. A connection may send anything, so an
acknowledgement may be for entries it never got, and a Resume may ask for any position.

**Ownership.** The sender of the watch channel sits in the log, which the task holds until it
returns and which the session holds as long as anybody holds the session (`held`).
`latest.changed()` fails exactly when neither is left (`senderAlive`); the branch of `attach` for
that case is `senderGone`.

**Records.** `Attached` remembers which entries its call has sent, and how long the history was
when it last took a snapshot. No step reads either.
-/

namespace HerdrEternal

namespace Attach

/-- Suspended in a send. -/
def inSend (a : Attach) : Bool :=
  match a.pc with
  | .sendStarted | .replay .. | .sendAck | .ping => true
  | .top | .select | .returned => false

/-- The branch of `latest.changed()` that reports a dropped sender: with nothing left to send, the
session task ended without an Exit message. -/
def senderGone (a : Attach) (s : Session) : Option (Attach × Session) :=
  if a.pc = .select ∧ a.exitSeq = none then
    if (s.log.after a.sentUpTo).isEmpty then some (a.return_, s.unregister)
    else some (a.continue_, s)
  else none

end Attach

/-- A connection in its `attach` call. -/
structure Attached where
  quic : Bool
  attach : Attach
  /-- `last_seq_seen` of its request. -/
  base : Nat
  /-- The entries of the log it has sent. -/
  sent : List Msg
  /-- Length of the history when its last snapshot was taken. -/
  upTo : Nat
  deriving DecidableEq

namespace Attached

def start (quic : Bool) (token : String) (lastSeqSeen : Nat) : Attached :=
  ⟨quic, .start token lastSeqSeen, lastSeqSeen, [], 0⟩

def running (c : Attached) : Bool := c.attach.pc ≠ .returned

/-- The records of a step that leads to `a'`. -/
def moved (c : Attached) (s : Session) (e : AttachEvent) (a' : Attach) : Attached :=
  { c with
    attach := a'
    sent := match c.attach.pc, e with
      | .replay m _, .sent => c.sent ++ [m]
      | _, _ => c.sent
    upTo := match e with
      | .snapshot => s.trace.pushed.length
      | _ => c.upTo }

end Attached

structure Serving where
  running : Running
  conns : List Attached
  /-- Handlers of agent channels, which hold the session while they run. -/
  agents : Nat
  /-- The sweep has collected the session. -/
  collected : Bool
  deriving DecidableEq

inductive ServingLabel where
  | task (e : TaskEvent)
  | publish
  /-- The task panics, or its runtime drops it. -/
  | lose
  /-- The daemon shuts down and asks for the handover. -/
  | handover
  /-- A request with the session's token gets to `attach`. -/
  | attach (quic : Bool) (token : String) (lastSeqSeen : Nat)
  | conn (i : Nat) (e : AttachEvent)
  | senderGone (i : Nat)
  | agentAttach
  | agentDetach
  /-- `expired` returns the session; whether its time is up is left open. -/
  | collect
  /-- The sweep removes the session and sends Abort. -/
  | expire
  deriving DecidableEq

namespace Serving

def session (x : Serving) : Session := x.running.session

def setSession (x : Serving) (s : Session) : Serving :=
  { x with running := { x.running with session := s } }

def setConn (x : Serving) (i : Nat) (c : Attached) : Serving := { x with conns := x.conns.set i c }

/-- Somebody holds the session. -/
def held (x : Serving) : Bool :=
  x.session.registered || x.conns.any Attached.running || 0 < x.agents || x.collected

/-- Somebody holds the log, and with it the sender of the watch channel. -/
def senderAlive (x : Serving) : Bool := x.held || !x.session.ended

/-- The task is lost. -/
def losesTask (s : Session) : Session :=
  s.setTask { s.task with phase := .returned .aborted }

def step (x : Serving) : ServingLabel → Option Serving
  | .task e =>
    if e = .recvNone ∧ x.held then none
    else (x.running.task e).map fun r => { x with running := r }
  | .publish => x.running.publish.map fun r => { x with running := r }
  | .lose =>
    if x.running.publishing.isSome || x.session.ended then none
    else some (x.setSession (losesTask x.session))
  | .handover => some (x.setSession (x.session.enqueue .handover))
  | .attach quic token lastSeqSeen =>
    if x.session.registered then
      some { x with conns := x.conns ++ [.start quic token lastSeqSeen] }
    else none
  | .conn i e =>
    x.conns[i]?.bind fun c => (c.attach.step c.quic x.session e).map fun (a, s) =>
      (x.setSession s).setConn i (c.moved x.session e a)
  | .senderGone i =>
    x.conns[i]?.bind fun c =>
      if x.senderAlive then none
      else (c.attach.senderGone x.session).map fun (a, s) =>
        (x.setSession s).setConn i { c with attach := a }
  | .agentAttach =>
    if x.session.registered && x.session.agent then some { x with agents := x.agents + 1 } else none
  | .agentDetach => if 0 < x.agents then some { x with agents := x.agents - 1 } else none
  | .collect => if x.session.registered then some { x with collected := true } else none
  | .expire =>
    if x.collected then
      some { x.setSession (x.session.unregister.enqueue .abort) with collected := false }
    else none

/-- A fresh or restored session before its first connection. -/
def start (s : Session) : Serving := ⟨⟨s, none⟩, [], 0, false⟩

def machine : Machine Serving ServingLabel where
  init x := ∃ s : Session, s.Wf ∧ s.ended = false ∧ x = start s
  step := step

end Serving

/-! ## What a step of `attach` does -/

namespace OutboundLog

theorem trim_zero (l : OutboundLog) : l.trim 0 = l := by
  simp [trim, trimLoop_eq]

end OutboundLog

namespace Attach

/-- The number of entries that a frame acknowledges. -/
def acked : AttachEvent → Nat
  | .frame (.ack seq) => seq
  | _ => 0

/-- What a step of `attach` does to the session. -/
structure Attends (e : AttachEvent) (s s' : Session) : Prop where
  log : s'.log = s.log.trim (acked e)
  trace : s'.trace = s.trace
  task : s'.task = s.task
  resumable : s'.resumable = s.resumable

variable {quic : Bool} {a a' : Attach} {s s' : Session} {e : AttachEvent}

theorem Attends.same (h : acked e = 0) : Attends e s s :=
  ⟨by rw [h, s.log.trim_zero], rfl, rfl, rfl⟩

theorem Attends.enqueue (h : acked e = 0) (input : SessionInput) : Attends e s (s.enqueue input) :=
  ⟨(Attends.same h).log, rfl, rfl, rfl⟩

theorem Attends.detach (h : acked e = 0) : Attends e s s.detach := by
  unfold Session.detach
  split_ifs
  · exact .same h
  · exact ⟨(Attends.same h).log, rfl, rfl, rfl⟩

theorem Attends.of_step (h : a.step quic s e = some (a', s')) : Attends e s s' := by
  cases Step.of_step h with
  | started => exact .same rfl
  | snapshot => exact .same rfl
  | replayed => exact .same rfl
  | acked => exact .same rfl
  | pinged => exact .same rfl
  | sendFailed => exact .same rfl
  | expired => exact .detach rfl
  | tick => exact .same rfl
  | changed => exact .same rfl
  | delivered => exact ⟨rfl, rfl, rfl, rfl⟩
  | trimmed => exact ⟨rfl, rfl, rfl, rfl⟩
  | @frame m _ hm =>
    refine .enqueue ?_ _
    cases m with
    | ack seq => exact absurd rfl (hm seq)
    | _ => rfl
  | datagram => exact .enqueue rfl _
  | badDatagram => exact .same rfl
  | badFrame => exact .same rfl
  | closed => exact .detach rfl
  | failed => exact .detach rfl

/-- The Exit number that is known once `m` is being sent. -/
def exitAfter (a : Attach) : Msg → Option Nat
  | .exit seq _ => some seq
  | _ => a.exitSeq

/-- What `replayNext` does with the messages that are left. -/
inductive Goes (a : Attach) : List Msg → Attach → Prop
  | waits {acked : Nat} {pc : AttachPc} (hpc : pc = .sendAck ∨ pc = .select) :
      Goes a [] { a with ackedStdin := acked, pc := pc }
  | sends {m : Msg} {rest : List Msg} :
      Goes a (m :: rest) { a with exitSeq := a.exitAfter m, pc := .replay m rest }

theorem goes_replayNext (a : Attach) (applied : Nat) (l : List Msg) :
    Goes a l (a.replayNext applied l) := by
  cases l with
  | nil =>
    unfold replayNext afterReplay
    split_ifs
    · exact .waits (.inl rfl)
    · exact .waits (.inr rfl)
  | cons m rest => exact .sends

theorem goes_loopTop (a : Attach) (s : Session) : Goes a (s.log.after a.sentUpTo) (a.loopTop s) :=
  goes_replayNext _ _ _

end Attach

namespace Attached

/-- What a step of its `attach` does to a connection: it turns back to the top of the loop, takes a
snapshot there, goes on in the pass, sends something else, or leaves. -/
inductive Effect (c : Attached) (s : Session) (e : AttachEvent) (s' : Session) : Attached → Prop
  | turned {a : Attach} (he : e ≠ .snapshot)
      (hpc : c.attach.pc = .sendStarted ∨ c.attach.pc = .ping ∨ c.attach.pc = .select)
      (ha : a = c.attach.observe s ∨ a = c.attach) :
      Effect c s e s' { c with attach := a.continue_ }
  | pass (hp : c.attach.pc = .top) (he : e = .snapshot) (hs : s' = s) :
      Effect c s e s' { c with attach := c.attach.loopTop s, upTo := s.trace.pushed.length }
  | replayed {m : Msg} {rest : List Msg} (hp : c.attach.pc = .replay m rest) (he : e = .sent)
      (hs : s' = s) :
      Effect c s e s' { c with
        attach := { c.attach with
          sentUpTo := c.attach.sentUpTo + 1 }.replayNext s.stdinApplied rest
        sent := c.sent ++ [m] }
  | acked (hp : c.attach.pc = .sendAck) (he : e = .sent) (hs : s' = s) :
      Effect c s e s' { c with attach := { c.attach with pc := .select } }
  | pinged (hp : c.attach.pc = .select) (he : e = .tick false) (hs : s' = s) :
      Effect c s e s' { c with attach := { c.attach with pc := .ping } }
  | left (hsent : e ≠ .sent) (he : e ≠ .snapshot) (hrunning : c.running = true) :
      Effect c s e s' { c with attach := c.attach.return_ }

variable {c : Attached} {s s' : Session} {e : AttachEvent} {a : Attach}

theorem running_of_pc {pc : AttachPc} (hp : c.attach.pc = pc) (hne : pc ≠ .returned) :
    c.running = true := by
  simp [running, hp, hne]

theorem moved_of_other (hp : ∀ m rest, c.attach.pc = .replay m rest → e ≠ .sent)
    (he : e ≠ .snapshot) : c.moved s e a = { c with attach := a } := by
  unfold moved
  split
  · rename_i m rest hpc
    exact absurd rfl (hp m rest hpc)
  · split
    · exact absurd rfl he
    · rfl

theorem Effect.of_turned (he : e ≠ .snapshot)
    (hpc : c.attach.pc = .sendStarted ∨ c.attach.pc = .ping ∨ c.attach.pc = .select)
    (ha : a = c.attach.observe s ∨ a = c.attach) :
    Effect c s e s' (c.moved s e a.continue_) := by
  rw [moved_of_other (fun m rest hp => ?_) he]
  · exact .turned he hpc ha
  · rcases hpc with h | h | h
    all_goals cases h.symm.trans hp

theorem Effect.of_left (hsent : e ≠ .sent) (he : e ≠ .snapshot) (hrunning : c.running = true) :
    Effect c s e s' (c.moved s e c.attach.return_) := by
  rw [moved_of_other (fun _ _ _ => hsent) he]
  exact .left hsent he hrunning

theorem Effect.of_step (h : c.attach.step c.quic s e = some (a, s')) :
    Effect c s e s' (c.moved s e a) := by
  cases Attach.Step.of_step h with
  | started hp => exact .of_turned (by simp) (.inl hp) (.inl rfl)
  | snapshot hp =>
    have hm : c.moved s .snapshot (c.attach.loopTop s) =
        { c with attach := c.attach.loopTop s, upTo := s.trace.pushed.length } := by
      simp [moved]
    rw [hm]
    exact .pass hp rfl rfl
  | @replayed m rest hp =>
    have hm : c.moved s .sent ({ c.attach with
        sentUpTo := c.attach.sentUpTo + 1 }.replayNext s.stdinApplied rest) = { c with
        attach := { c.attach with
          sentUpTo := c.attach.sentUpTo + 1 }.replayNext s.stdinApplied rest
        sent := c.sent ++ [m] } := by
      simp [moved, hp]
    rw [hm]
    exact .replayed hp rfl rfl
  | acked hp =>
    rw [moved_of_other (fun m rest h => by cases hp.symm.trans h) (by simp)]
    exact .acked hp rfl rfl
  | pinged hp => exact .of_turned (by simp) (.inr (.inl hp)) (.inr rfl)
  | sendFailed hp =>
    refine .of_left (by simp) (by simp) ?_
    simp only [running, ne_eq, decide_eq_true_eq]
    intro hret
    simp [Attach.sending, hret] at hp
  | expired hp => exact .of_left (by simp) (by simp) (running_of_pc hp (by simp))
  | tick hp =>
    rw [moved_of_other (by simp) (by simp)]
    exact .pinged hp rfl rfl
  | changed hp => exact .of_turned (by simp) (.inr (.inr hp)) (.inl rfl)
  | delivered hp => exact .of_left (by simp) (by simp) (running_of_pc hp (by simp))
  | trimmed hp => exact .of_turned (by simp) (.inr (.inr hp)) (.inr rfl)
  | frame hp => exact .of_turned (by simp) (.inr (.inr hp)) (.inr rfl)
  | datagram hp => exact .of_turned (by simp) (.inr (.inr hp)) (.inr rfl)
  | badDatagram hp => exact .of_turned (by simp) (.inr (.inr hp)) (.inr rfl)
  | badFrame hp => exact .of_left (by simp) (by simp) (running_of_pc hp (by simp))
  | closed hp => exact .of_left (by simp) (by simp) (running_of_pc hp (by simp))
  | failed hp => exact .of_left (by simp) (by simp) (running_of_pc hp (by simp))

end Attached

/-! ## The session's side of a step -/

theorem Session.Wf.congr {s s' : Session} (h : s.Wf) (hlog : s'.log = s.log)
    (htrace : s'.trace = s.trace) (htask : s'.task = s.task) : s'.Wf := by
  refine ⟨h.logged.congr hlog (by rw [htrace]) (by rw [htrace]) (by rw [htask]), ?_⟩
  have hexit := h.exitOk
  unfold Session.ExitOk Session.NoExit at hexit ⊢
  rw [htask, htrace]
  exact hexit

theorem Running.Ok.attends {r : Running} {s : Session} {e : AttachEvent} (h : r.Ok)
    (hs : Attach.Attends e r.session s) : Running.Ok { r with session := s } := by
  have hlatest : s.log.latest = r.session.log.latest := by rw [hs.log]; rfl
  refine ⟨Session.Wf.congr (h.wf.trimLog (Attach.acked e)) ?_ hs.trace hs.task,
    fun seq hseq => hlatest ▸ h.news seq hseq⟩
  show s.log.publish (r.publishing.getD s.log.latest) = _
  rw [hlatest, hs.log]
  rfl

/-- What a connection reads after a step of its `attach`. -/
theorem Running.Ok.after_attends {r : Running} {quic : Bool} {a a' : Attach} {s : Session}
    {e : AttachEvent} (h : r.Ok) (ha : a.step quic r.session e = some (a', s)) (n : Nat) :
    s.log.after n = r.session.trace.pushed.drop (max n s.log.trimmed) := by
  have hend := Attach.Attends.of_step ha
  rw [← hend.trace]
  exact (h.attends hend).after_eq n

namespace Serving

/-! ## What a step can do -/

variable {x x' : Serving}

/-- An attached connection holds the session, so `latest.changed()` never fails under it. -/
theorem senderAlive_of_running {i : Nat} {c : Attached} (hc : x.conns[i]? = some c)
    (hrun : c.running = true) : x.senderAlive = true := by
  have hany : x.conns.any Attached.running = true :=
    List.any_eq_true.mpr ⟨c, List.mem_of_getElem? hc, hrun⟩
  simp [senderAlive, held, hany]

theorem senderGone_disabled (x : Serving) (i : Nat) : x.step (.senderGone i) = none := by
  simp only [step]
  cases hc : x.conns[i]? with
  | none => rfl
  | some c =>
    rw [Option.bind_some]
    split_ifs with halive
    · rfl
    · rw [Option.map_eq_none_iff]
      unfold Attach.senderGone
      split_ifs with hp
      · exact absurd (senderAlive_of_running hc (Attached.running_of_pc hp.1 (by simp))) halive
      · exact absurd (senderAlive_of_running hc (Attached.running_of_pc hp.1 (by simp))) halive
      · rfl

/-- Every step, with the guard it passed. -/
inductive Step (x : Serving) : ServingLabel → Serving → Prop
  | task {e : TaskEvent} {r : Running} (hr : x.running.task e = some r) :
      Step x (.task e) { x with running := r }
  | publish {r : Running} (hr : x.running.publish = some r) :
      Step x .publish { x with running := r }
  | lose (hp : x.running.publishing = none) (hend : x.session.ended = false) :
      Step x .lose (x.setSession (losesTask x.session))
  | handover : Step x .handover (x.setSession (x.session.enqueue .handover))
  | attach {quic : Bool} {token : String} {lastSeqSeen : Nat} :
      Step x (.attach quic token lastSeqSeen)
        { x with conns := x.conns ++ [.start quic token lastSeqSeen] }
  | conn {i : Nat} {e : AttachEvent} {c : Attached} {a : Attach} {s : Session}
      (hc : x.conns[i]? = some c) (hs : c.attach.step c.quic x.session e = some (a, s)) :
      Step x (.conn i e) ((x.setSession s).setConn i (c.moved x.session e a))
  | agentAttach : Step x .agentAttach { x with agents := x.agents + 1 }
  | agentDetach : Step x .agentDetach { x with agents := x.agents - 1 }
  | collect : Step x .collect { x with collected := true }
  | expire : Step x .expire
      { x.setSession (x.session.unregister.enqueue .abort) with collected := false }

theorem Step.of_step {l : ServingLabel} (hs : x.step l = some x') : Step x l x' := by
  cases l with
  | task e =>
    simp only [step] at hs
    split_ifs at hs
    obtain ⟨r, hr, rfl⟩ := Option.map_eq_some_iff.mp hs
    exact .task hr
  | publish =>
    obtain ⟨r, hr, rfl⟩ := Option.map_eq_some_iff.mp hs
    exact .publish hr
  | lose =>
    simp only [step, Bool.or_eq_true] at hs
    split_ifs at hs with hno
    cases hs
    simp only [not_or, Bool.not_eq_true, Option.isSome_eq_false_iff,
      Option.isNone_iff_eq_none] at hno
    exact .lose hno.1 hno.2
  | handover =>
    cases hs
    exact .handover
  | attach quic token lastSeqSeen =>
    simp only [step] at hs
    split_ifs at hs
    cases hs
    exact .attach
  | conn i e =>
    obtain ⟨c, hc, hs⟩ := Option.bind_eq_some_iff.mp hs
    obtain ⟨⟨a, s⟩, has, rfl⟩ := Option.map_eq_some_iff.mp hs
    exact .conn hc has
  | senderGone i =>
    rw [senderGone_disabled] at hs
    cases hs
  | agentAttach =>
    simp only [step] at hs
    split_ifs at hs
    cases hs
    exact .agentAttach
  | agentDetach =>
    simp only [step] at hs
    split_ifs at hs
    cases hs
    exact .agentDetach
  | collect =>
    simp only [step] at hs
    split_ifs at hs
    cases hs
    exact .collect
  | expire =>
    simp only [step] at hs
    split_ifs at hs
    cases hs
    exact .expire

/-! ## The session's side -/

theorem ok_losesTask {s : Session} (h : s.Wf) (hend : s.ended = false) : (losesTask s).Wf := by
  have hp : s.task.phase ≠ .returned .exited := by
    intro hp
    simp [Session.ended, hp] at hend
  exact Session.Logging.wf ((h.logging hp).congr rfl rfl rfl rfl)
    (by simp [losesTask, Session.setTask])

/-- The session stays well formed under all that is attached to it. -/
theorem ok_step {l : ServingLabel} (h : x.running.Ok) (hs : x.step l = some x') :
    x'.running.Ok := by
  cases Step.of_step hs with
  | task hr => exact h.task hr
  | publish hr => exact h.publish hr
  | lose hp hend =>
    have hwf := h.wf
    rw [Running.settled_of_none hp] at hwf
    have hok := Running.Ok.of_wf (ok_losesTask hwf hend)
    show Running.Ok ⟨losesTask x.session, x.running.publishing⟩
    rwa [hp]
  | handover => exact h.enqueue .handover
  | attach => exact h
  | conn _ ha => exact h.attends (.of_step ha)
  | agentAttach => exact h
  | agentDetach => exact h
  | collect => exact h
  | expire => exact h.unregister.enqueue .abort

theorem ok_under {C : Serving → ServingLabel → Prop} (h : machine.Under C x) : x.running.Ok := by
  refine h.invariant (P := fun x => x.running.Ok) ?_ ?_
  · rintro _ ⟨s, hwf, -, rfl⟩
    exact .of_wf hwf
  · exact fun _ _ _ h _ hs => ok_step h hs

/-! ## The history -/

/-- Every message ever pushed. -/
def history (x : Serving) : List Msg := x.session.trace.pushed

theorem history_mono {l : ServingLabel} (hs : x.step l = some x') : x.history <+: x'.history := by
  cases Step.of_step hs with
  | task hr => exact (Session.Grows.taskStep (Running.task_settled hr).2).pushed
  | publish hr =>
    obtain ⟨seq, -, rfl⟩ := Option.map_eq_some_iff.mp hr
    exact List.prefix_rfl
  | lose => exact List.prefix_rfl
  | handover => exact List.prefix_rfl
  | attach => exact List.prefix_rfl
  | @conn i e c a s _ ha =>
    show x.session.trace.pushed <+: s.trace.pushed
    rw [(Attach.Attends.of_step ha).trace]
  | agentAttach => exact List.prefix_rfl
  | agentDetach => exact List.prefix_rfl
  | collect => exact List.prefix_rfl
  | expire => exact List.prefix_rfl

end Serving

end HerdrEternal
