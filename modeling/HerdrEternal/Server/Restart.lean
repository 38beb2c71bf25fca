import Mathlib.Data.List.Nodup
import HerdrEternal.Server.HandoverInv

/-!
# What survives a restart

* `restore_handover`: a session whose task answers the request is rebuilt as it was, whatever the
  other sessions are and in whatever order the pipe ends come back. The sequence of its log goes
  on where it stopped, and stdin that was applied is not applied again, through any number of
  further restarts.
* `restart_keeps_unacked_iff`: no unacknowledged entry is lost in a restart if and only if every
  session that has one answers the request. The task of a session that has logged Exit does not,
  so an Exit the client has not acknowledged is lost (`exit_lost_in_restart`).
-/

namespace HerdrEternal

open History Session

/-- What went through the sessions of the old daemon. -/
def histories (registry : List (String × Handing)) (token : String) : Trace :=
  ((registry.find? fun x => x.1 = token).map (·.2.atReply.trace)).getD .empty

/-- The registry of the daemon that takes over from one with the given registry, when the store
gives it the given pipe ends. -/
def restarted (registry : List (String × Handing)) (fds : List (String × Fd)) :
    List (String × Session) :=
  restoreSessions (histories registry) (handoverRecords registry) fds

/-! ## The new registry -/

section

variable {registry : List (String × Handing)} {fds : List (String × Fd)} {token : String}
  {h : Handing} {t : Session}

theorem eq_of_mem_registry (hnd : (registry.map (·.1)).Nodup) {h' : Handing}
    (hmem : (token, h) ∈ registry) (hmem' : (token, h') ∈ registry) : h' = h :=
  congrArg Prod.snd (List.inj_on_of_nodup_map hnd hmem' hmem rfl)

theorem histories_eq (hnd : (registry.map (·.1)).Nodup) (hmem : (token, h) ∈ registry) :
    histories registry token = h.atReply.trace := by
  unfold histories
  cases hfind : registry.find? fun x => x.1 = token with
  | none => exact absurd (decide_eq_true rfl) (List.find?_eq_none.mp hfind _ hmem)
  | some x =>
    obtain ⟨token', h'⟩ := x
    have htoken : token' = token := by simpa using List.find?_some hfind
    subst htoken
    rw [eq_of_mem_registry hnd hmem (List.mem_of_find?_eq_some hfind)]
    rfl

theorem mem_restarted_iff : (token, t) ∈ restarted registry fds ↔
    ∃ h r, (token, h) ∈ registry ∧ h.handed = some r ∧
      t = restoreSession (histories registry token) (fdFor fds token) r.state := by
  simp only [restarted, restoreSessions, handoverRecords, List.mem_map, List.mem_filterMap,
    Option.map_eq_some_iff, Prod.exists, Prod.mk.injEq]
  constructor
  · rintro ⟨token', record, ⟨token'', h, hmem, r, hr, rfl, rfl⟩, rfl, rfl⟩
    exact ⟨h, r, hmem, hr, rfl⟩
  · rintro ⟨h, r, hmem, hr, rfl⟩
    exact ⟨token, r.state, ⟨token, h, hmem, r, hr, rfl, rfl⟩, rfl, rfl⟩

/-- Only a session that was handed over is in the new registry. -/
theorem handed_of_mem_restarted (hnd : (registry.map (·.1)).Nodup) (hmem : (token, h) ∈ registry)
    (ht : (token, t) ∈ restarted registry fds) : h.handed.isSome = true := by
  obtain ⟨h', r, hmem', hr, -⟩ := mem_restarted_iff.mp ht
  rw [← eq_of_mem_registry hnd hmem hmem', hr]
  rfl

/-- A session that answers the request is in the new registry, once, and is the one its own pipe
ends and its own record give. -/
theorem mem_restarted_of_reply (hnd : (registry.map (·.1)).Nodup) (hmem : (token, h) ∈ registry)
    (hu : Unasked h.session) (hperm : fds.Perm (handoverFds registry)) {r : SessionHandover}
    (hr : h.reply = some r) :
    (token, t) ∈ restarted registry fds ↔ t = h.atReply.reborn r := by
  have hhanded := Handing.handed_eq hu
  rw [hr] at hhanded
  have hfds : r.fds = openFds h.atReply.task := by
    rw [(Handing.replied_of_reply hu hr).2]
    rfl
  have hborn : restoreSession (histories registry token) (fdFor fds token)
      { r.state with forwardAgent := h.session.agent } = h.atReply.reborn r := by
    have hroles : fdFor fds token =
        fun role => (r.fds.find? fun x => decide (x.1 = role)).map (·.2) := by
      funext role
      exact fdFor_handoverFds hnd hmem hperm hhanded hfds role
    rw [hroles, histories_eq hnd hmem, ← h.agent_atReply]
    rfl
  rw [mem_restarted_iff]
  constructor
  · rintro ⟨h', r', hmem', hr', rfl⟩
    rw [eq_of_mem_registry hnd hmem hmem', hhanded] at hr'
    cases hr'
    exact hborn
  · rintro rfl
    exact ⟨h, _, hmem, hhanded, hborn.symm⟩

end

/-! ## Handover followed by restore -/

/-- The message does nothing to the session's stdin. -/
def Ignores (s : Session) (m : Msg) : Prop :=
  s.onInput (.message m) = s.endOfLoop ∧ s.onInput (.datagram m) = s.endOfLoop

/-- `u` goes on from `s`: the log holds what it held and goes on without a gap, and stdin that was
applied is ignored. -/
structure GoesOn (s u : Session) : Prop where
  pushed : s.trace.pushed <+: u.trace.pushed
  numbered : Numbered ChannelMessage.seq? u.trace.pushed
  refines : u.log.Refines u.trace.pushed
  stdin : ∀ seq data, seq ≤ s.stdinApplied → Ignores u (.stdin seq data)
  stdinEof : ∀ seq, seq ≤ s.stdinApplied → Ignores u (.stdinEof seq)

/-- `t` is the session `s` in another daemon. -/
structure Preserves (s t : Session) : Prop where
  trimmed : t.log.trimmed = s.log.trimmed
  buffer : t.log.buffer = s.log.buffer
  latest : t.log.latest = t.log.trimmed + t.log.buffer.length
  stdinApplied : t.stdinApplied = s.stdinApplied
  exitCode : t.task.exitCode = s.task.exitCode
  pgid : t.task.pgid = s.task.pgid
  agent : t.agent = s.agent
  stdin : t.task.stdin = s.task.stdin
  stdout : t.task.stdout = if s.task.stdoutOpen then s.task.stdout else .drained
  stderr : t.task.stderr = if s.task.stderrOpen then s.task.stderr else .drained
  exit : t.task.exit = if s.task.exitCode.isNone then s.task.exit else .drained
  /-- Whatever happens to it, restarts included. -/
  goesOn : ∀ es u, lifeMachine.run t es = some u → GoesOn s u

namespace Session

variable {s t : Session} {H : List Msg} {n : Nat}

theorem Living.ignores_stdin (h : Living H n s) {seq : Nat} (hle : seq ≤ n) (data : Data) :
    Ignores s (.stdin seq data) := by
  have hlast := hle.trans h.applying.le_last
  constructor
  · show (if acceptStream seq s.task.lastClientSeq then _ else _) = _
    rw [if_neg]
    simpa [acceptStream] using hlast
  · show (if acceptDatagram seq s.task.lastClientSeq then _ else _) = _
    rw [if_neg]
    simp only [acceptDatagram, decide_eq_true_eq]
    omega

theorem Living.ignores_stdinEof (h : Living H n s) {seq : Nat} (hle : seq ≤ n) :
    Ignores s (.stdinEof seq) := by
  have hlast := hle.trans h.applying.le_last
  refine ⟨?_, rfl⟩
  show (if acceptStream seq s.task.lastClientSeq then _ else _) = _
  rw [if_neg]
  simpa [acceptStream] using hlast

/-- The fields of the session that a session becomes. -/
theorem Unasked.preserves_reborn (hborn : Unasked (s.reborn s.handoverReply))
    (hl : Living s.trace.pushed s.task.lastClientSeq (s.reborn s.handoverReply))
    (happlied : s.stdinApplied = s.task.lastClientSeq) :
    Preserves s (s.reborn s.handoverReply) where
  trimmed := rfl
  buffer := rfl
  latest := rfl
  stdinApplied := happlied.symm
  exitCode := rfl
  pgid := rfl
  agent := rfl
  stdin := find?_openFds s.task .stdin
  stdout := by
    show receiver (((openFds s.task).find? fun x => decide (x.1 = .stdout)).map (·.2)) = _
    rw [find?_openFds]
    exact apply_ite receiver _ _ _
  stderr := by
    show receiver (((openFds s.task).find? fun x => decide (x.1 = .stderr)).map (·.2)) = _
    rw [find?_openFds]
    exact apply_ite receiver _ _ _
  exit := by
    show receiver (((openFds s.task).find? fun x => decide (x.1 = .exit)).map (·.2)) = _
    rw [find?_openFds]
    exact apply_ite receiver _ _ _
  goesOn := by
    intro es u hrun
    have hu := hl.run hborn hrun
    exact ⟨hu.pushed, hu.wf.logged.numbered, hu.wf.logged.refines,
      fun seq data hle => hu.ignores_stdin (happlied ▸ hle) data,
      fun seq hle => hu.ignores_stdinEof (happlied ▸ hle)⟩

end Session

section

variable {registry : List (String × Handing)} {fds : List (String × Fd)} {token : String}
  {h : Handing} {t : Session} {r : SessionHandover}

theorem reachable_reborn (hlife : lifeMachine.Reachable h.session) (hr : h.reply = some r) :
    lifeMachine.Reachable (h.atReply.reborn r) := by
  refine Machine.Under.step (l := .restart h.wait) hlife trivial ?_
  exact Option.map_eq_some_iff.mpr ⟨r, hr, rfl⟩

theorem preserves_reborn (hlife : lifeMachine.Reachable h.session) (hr : h.reply = some r) :
    Preserves h.atReply (h.atReply.reborn r) := by
  have hu := unasked_of_reachable hlife
  have hborn := unasked_of_reachable (reachable_reborn hlife hr)
  obtain ⟨hrep, heq⟩ := Handing.replied_of_reply hu hr
  have hat := Handing.living_atReply hu.living
  have happlied : h.atReply.stdinApplied = h.atReply.task.lastClientSeq := by
    refine hat.applying.settled.eq fun rest hp => ?_
    unfold replied at hrep
    rw [hp] at hrep
    cases hrep
  have hl := hat.reborn hrep heq
  subst heq
  exact hborn.preserves_reborn hl happlied

/-- **Handover followed by restore preserves running sessions**, in any registry and for any order
of the pipe ends: the new registry has exactly one session under the token, it is the old one, and
it can be handed over again. -/
theorem restore_handover (hnd : (registry.map (·.1)).Nodup)
    (hlife : ∀ x ∈ registry, lifeMachine.Reachable x.2.session)
    (hperm : fds.Perm (handoverFds registry)) (hmem : (token, h) ∈ registry)
    (hr : h.reply.isSome = true) :
    ∃ t, (∀ t', (token, t') ∈ restarted registry fds ↔ t' = t) ∧
      Preserves h.atReply t ∧ lifeMachine.Reachable t := by
  obtain ⟨r, hr⟩ := Option.isSome_iff_exists.mp hr
  have hlife := hlife _ hmem
  exact ⟨h.atReply.reborn r,
    fun t' => mem_restarted_of_reply hnd hmem (unasked_of_reachable hlife) hperm hr,
    preserves_reborn hlife hr, reachable_reborn hlife hr⟩

end

theorem reachable_events {s : Session} (h : lifeMachine.Reachable s) (es : List SessionEvent) :
    lifeMachine.Reachable (s.events es) := by
  induction es generalizing s with
  | nil => exact h
  | cons e es ih => exact ih (h.step (l := .event e) trivial rfl)

theorem reachable_start (agent : Bool) (stdin stdout stderr exit : Fd) (pgid : Int32) :
    lifeMachine.Reachable (.start true agent (.start stdin stdout stderr exit pgid)) :=
  .init ⟨agent, stdin, stdout, stderr, exit, pgid, rfl⟩

/-- A fresh resumable session. -/
def Session.fresh : Session :=
  .start true false (.start (.pipe 0) (.pipe 1) (.pipe 2) (.pipe 3) 7)

/-- It has logged a chunk of output, and applied a chunk of stdin. -/
def Session.busy : Session :=
  Session.fresh.events [.task (.outputRead .out (.data [104])), .message (.stdin 1 [105]),
    .task .recv, .task (.stdinWritten 1)]

/-- Its stderr ends while the request waits. -/
def Handing.served : Handing := ⟨.busy, [.task (.outputRead .err .eof), .task .recv], []⟩

/-- The command has finished, and Exit is logged. -/
def Session.finished : Session :=
  Session.fresh.events [.task (.outputRead .out .eof), .task (.outputRead .err .eof),
    .task (.exitRead (.data [48, 10])), .task .reaped]

def Handing.missed : Handing := ⟨.finished, [.task .recv], []⟩

/-- One session is in its loop, the other has finished. -/
def mixedRegistry : List (String × Handing) := [("7-1-0", .served), ("7-1-1", .missed)]

theorem nodup_mixedRegistry : (mixedRegistry.map (·.1)).Nodup := by decide

theorem reachable_mixedRegistry : ∀ x ∈ mixedRegistry, lifeMachine.Reachable x.2.session := by
  intro x hx
  rcases List.mem_pair.mp hx with rfl | rfl
  · exact reachable_events (reachable_start ..) _
  · exact reachable_events (reachable_start ..) _

/-- The pipe ends come back in reverse. -/
theorem served_restored :
    Handing.served.atReply.log.buffer = [.stdout 1 [104]] ∧
    ∃ t, (∀ t', ("7-1-0", t') ∈ restarted mixedRegistry (handoverFds mixedRegistry).reverse ↔
      t' = t) ∧ Preserves Handing.served.atReply t ∧ lifeMachine.Reachable t :=
  ⟨by decide, restore_handover nodup_mixedRegistry reachable_mixedRegistry (List.reverse_perm _)
    (by simp [mixedRegistry]) (by decide)⟩

/-! ## Unacknowledged entries -/

/-- Every session with an unacknowledged entry is in the new registry under its token, and replays
what the old daemon would have replayed. -/
def KeepsUnacked (registry : List (String × Handing)) (fds : List (String × Fd)) : Prop :=
  ∀ x ∈ registry, x.2.left.log.buffer ≠ [] →
    ∃ t, (∀ t', (x.1, t') ∈ restarted registry fds ↔ t' = t) ∧
      ∀ n, x.2.left.log.trimmed ≤ n → t.log.after n = x.2.left.log.after n

/-- The old daemon logs nothing more for a session it has handed over. -/
theorem after_reborn {h : Handing} {r : SessionHandover} (hu : Unasked h.session)
    (hr : h.reply = some r) {n : Nat} (hn : h.left.log.trimmed ≤ n) :
    (h.atReply.reborn r).log.after n = h.left.log.after n := by
  obtain ⟨hrep, rfl⟩ := Handing.replied_of_reply hu hr
  have hat := Handing.living_atReply hu.living
  have hrests := Rests.events (ended_of_replied hrep) hat h.late
  have hnew := hat.wf.logged.refines.restore.after_eq n
  have hold := (hat.events h.late).wf.logged.refines.after_eq n
  rw [hrests.trace] at hold
  have htrim : h.atReply.log.trimmed ≤ n := hrests.trimmed.trans hn
  calc (h.atReply.reborn h.atReply.handoverReply).log.after n
      = h.atReply.trace.pushed.drop (max n h.atReply.log.trimmed) := hnew
    _ = h.atReply.trace.pushed.drop (max n h.left.log.trimmed) := by
      rw [max_eq_left htrim, max_eq_left hn]
    _ = h.left.log.after n := hold.symm

/-- **A restart keeps the unacknowledged entries** of a registry if and only if each session that
has one is handed over: its task is in its loop when it gets to the request, and does so in time. -/
theorem restart_keeps_unacked_iff {registry : List (String × Handing)} {fds : List (String × Fd)}
    (hnd : (registry.map (·.1)).Nodup) (hlife : ∀ x ∈ registry, lifeMachine.Reachable x.2.session)
    (hperm : fds.Perm (handoverFds registry)) :
    KeepsUnacked registry fds ↔
      ∀ x ∈ registry, x.2.left.log.buffer ≠ [] → x.2.Served := by
  constructor
  · rintro hkeeps ⟨token, h⟩ hmem hbuf
    have hu := unasked_of_reachable (hlife _ hmem)
    obtain ⟨t, ht, -⟩ := hkeeps _ hmem hbuf
    have hhanded := handed_of_mem_restarted hnd hmem ((ht t).mpr rfl)
    rw [Handing.handed_eq hu, Option.isSome_map] at hhanded
    exact (Handing.reply_isSome_iff hu).mp hhanded
  · rintro hserved ⟨token, h⟩ hmem hbuf
    have hu := unasked_of_reachable (hlife _ hmem)
    have hsome := (Handing.reply_isSome_iff hu).mpr (hserved _ hmem hbuf)
    obtain ⟨r, hr⟩ := Option.isSome_iff_exists.mp hsome
    exact ⟨h.atReply.reborn r, fun t' => mem_restarted_of_reply hnd hmem hu hperm hr,
      fun n hn => after_reborn hu hr hn⟩

theorem served_kept :
    Handing.served.left.log.buffer ≠ [] ∧
    KeepsUnacked [("7-1-0", .served)] (handoverFds [("7-1-0", .served)]) := by
  refine ⟨by decide, (restart_keeps_unacked_iff (by decide) ?_ (List.Perm.refl _)).mpr ?_⟩
  · intro x hx
    rw [List.mem_singleton.mp hx]
    exact reachable_events (reachable_start ..) _
  · intro x hx _
    rw [List.mem_singleton.mp hx]
    exact ⟨[.task (.outputRead .err .eof)], [], rfl, by decide, by decide⟩

/-- The Exit of a command that has finished is not acknowledged yet when the daemon is restarted:
the next daemon does not know the session. -/
theorem exit_lost_in_restart :
    (∀ x ∈ mixedRegistry, lifeMachine.Reachable x.2.session) ∧
    Handing.missed.left.log.buffer = [.exit 1 0] ∧
    ¬ KeepsUnacked mixedRegistry (handoverFds mixedRegistry) := by
  refine ⟨reachable_mixedRegistry, by decide, fun hkeeps => ?_⟩
  obtain ⟨t, ht, -⟩ := hkeeps ("7-1-1", .missed) (by simp [mixedRegistry]) (by decide)
  have hhanded := handed_of_mem_restarted (h := .missed) nodup_mixedRegistry
    (by simp [mixedRegistry]) ((ht t).mpr rfl)
  exact absurd hhanded (by decide)

end HerdrEternal
