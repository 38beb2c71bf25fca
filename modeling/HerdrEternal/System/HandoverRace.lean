import HerdrEternal.Lib.Table
import HerdrEternal.Server.Daemon
import HerdrEternal.Server.HandoverInv

/-!
# Handover and connections in their handshake

While `handover_sessions` runs, handlers that were accepted earlier go on with their handshake and
use the same registry. Two things can go wrong. A client that resumes a session which the handover
has already removed is denied for good, and a command that is started after the handover took its
list of sessions is in no record (`handover_breaks_handshakes`).

**Theorem (`handover_invisible`).** Neither happens in a run in which

* no request is looked up for a session that the handover has on its list and that has left the
  registry, unless its task ended without answering, and agent channels are asked for only where
  agent forwarding is on;
* no resumable command is started once the handover has its list;
* every session on the list that is still in the registry answers in time; and
* the records can be written.

`Entry.Change` says once what a step can do to a session; the invariant `HandsOver` follows from it.
-/

namespace HerdrEternal

/-! ## What a step does to one session -/

/-- A session in the registry after the step was there before, with the same history. It leaves
the registry because its Exit was acknowledged, because it expired, or (`handed`) because it was
handed over. Its task is asked for its state only if `asked`. -/
structure Entry.Change (asked handed : Prop) (e e' : Entry) : Prop where
  token : e'.token = e.token
  resumable : e'.session.resumable = e.session.resumable
  registered : e'.session.registered = true → e.session.registered = true ∧ e'.gone = e.gone
  leaves : e.session.resumable = true → e.session.registered = true →
    e'.session.registered = false → e.gone = none →
      e'.gone = some .exitAcked ∨ e'.gone = some .expired ∨ handed
  keeps : e.session.registered = false → ∀ why, e.gone = some why → e'.gone = some why
  inbound : SessionInput.handover ∈ e'.session.inbound →
    SessionInput.handover ∈ e.session.inbound ∨ asked
  replied : e'.session.replied.isSome = true →
    e.session.replied.isSome = true ∨ SessionInput.handover ∈ e.session.inbound
  ended : e.session.ended = true →
    e'.session.ended = true ∧ e'.session.replied = e.session.replied

namespace Entry

variable {e e' : Entry} {asked handed : Prop}

theorem Change.refl (e : Entry) : Change asked handed e e where
  token := rfl
  resumable := rfl
  registered h := ⟨h, rfl⟩
  leaves _ h h' := by rw [h] at h'; cases h'
  keeps _ _ h := h
  inbound := .inl
  replied := .inl
  ended h := ⟨h, rfl⟩

/-- Taking or dropping a guard does not touch the session. -/
theorem Change.of_session (hs : e'.session = e.session) (ht : e'.token = e.token)
    (hg : e'.gone = e.gone) : Change asked handed e e' where
  token := ht
  resumable := by rw [hs]
  registered h := ⟨by rw [← hs]; exact h, hg⟩
  leaves _ h h' := by rw [hs, h] at h'; cases h'
  keeps _ why h := hg ▸ h
  inbound h := .inl (by rw [← hs]; exact h)
  replied h := .inl (by rw [← hs]; exact h)
  ended h := by rw [hs]; exact ⟨h, rfl⟩

theorem Change.enqueue {input : SessionInput} (hin : input = .handover → asked) :
    Change asked handed e (e.enqueue input) where
  token := rfl
  resumable := rfl
  registered h := ⟨h, rfl⟩
  leaves _ h h' := by
    have h' : e.session.registered = false := h'
    rw [h] at h'
    cases h'
  keeps _ _ h := h
  inbound h := by
    rcases List.mem_append.mp h with h | h
    · exact .inl h
    · exact .inr (hin (List.mem_singleton.mp h).symm)
  replied := .inl
  ended h := ⟨h, rfl⟩

/-- The session is taken out of the registry by the sweep or the handover. -/
theorem Change.remove {why : Gone} (hwhy : why = .expired ∨ handed) :
    Change asked handed e (e.remove why) where
  token := rfl
  resumable := rfl
  registered h := by cases h
  leaves _ _ _ hnone := by
    rcases hwhy with rfl | hwhy
    · exact .inr (.inl (by simp [Entry.remove, hnone]))
    · exact .inr (.inr hwhy)
  keeps _ why h := by simp [Entry.remove, h]
  inbound := .inl
  replied := .inl
  ended h := ⟨h, rfl⟩

theorem registered_taskStep {s s' : Session} {event : TaskEvent}
    (hs : s.taskStep event = some s') : s'.registered = s.registered := by
  refine Session.Framed.taskStep (R := fun t => t.registered = s.registered)
    ⟨?_, ?_, ?_, ?_, ?_⟩ rfl hs
  · exact fun _ h => h
  · exact fun _ h => h
  · exact fun _ h => h
  · exact fun _ h => h
  · exact fun _ _ _ h => h

theorem Change.task {s : Session} {event : TaskEvent} (hs : e.session.taskStep event = some s) :
    Change asked handed e { e with session := s } where
  token := rfl
  resumable := (Session.Steady.taskStep hs).resumable
  registered h := ⟨by rw [← registered_taskStep hs]; exact h, rfl⟩
  leaves _ h h' := by
    rw [registered_taskStep hs, h] at h'
    cases h'
  keeps _ _ h := h
  inbound h := .inl ((Session.Steady.taskStep hs).inbound.subset h)
  replied h := by
    obtain ⟨r, hr⟩ := Option.isSome_iff_exists.mp h
    exact .inr (List.mem_of_mem_head? (Session.taskStep_replied hs hr).2.2.1)
  ended h := by
    rw [Session.taskStep_of_ended h] at hs
    cases hs

/-- A step of `attach` changes neither the task nor, for a resumable session whose Exit is not
acknowledged, the registry. -/
theorem Attach.Step.entry {q : Bool} {a a' : Attach} {s s' : Session} {event : AttachEvent}
    (h : a.Step q s event a' s') :
    s'.task = s.task ∧ s'.resumable = s.resumable ∧
      (s'.registered = s.registered ∨ s'.registered = false ∧
        (s.resumable = true → ∃ m, event = .frame m)) ∧
      (SessionInput.handover ∈ s'.inbound → SessionInput.handover ∈ s.inbound) := by
  have hdetach : s.detach.task = s.task ∧ s.detach.resumable = s.resumable ∧
      (s.detach.registered = s.registered ∨ s.detach.registered = false ∧
        (s.resumable = true → ∃ m, event = .frame m)) ∧
      (SessionInput.handover ∈ s.detach.inbound → SessionInput.handover ∈ s.inbound) := by
    unfold Session.detach
    by_cases hr : s.resumable = true
    · simp [hr]
    · simp [hr, Session.unregister, Session.enqueue]
  cases h with
  | expired => exact hdetach
  | closed => exact hdetach
  | failed => exact hdetach
  | delivered => exact ⟨rfl, rfl, .inr ⟨rfl, fun _ => ⟨_, rfl⟩⟩, id⟩
  | frame => exact ⟨rfl, rfl, .inl rfl, by simp [Session.enqueue]⟩
  | datagram => exact ⟨rfl, rfl, .inl rfl, by simp [Session.enqueue]⟩
  | _ => exact ⟨rfl, rfl, .inl rfl, id⟩

theorem Change.serve {q : Bool} {a a' : Attach} {event : AttachEvent} {s : Session}
    (h : a.Step q e.session event a' s) : Change asked handed e (e.serve a event s) := by
  obtain ⟨htask, hres, hreg, hin⟩ := Attach.Step.entry h
  have hended : s.ended = e.session.ended := by
    unfold Session.ended
    rw [htask]
  have hreplied : s.replied = e.session.replied := by
    unfold Session.replied
    rw [htask]
  refine ⟨rfl, hres, ?_, ?_, ?_, fun hm => .inl (hin hm), ?_, ?_⟩
  · intro hs
    have hs : s.registered = true := hs
    rcases hreg with hreg | ⟨hno, -⟩
    · exact ⟨by rw [← hreg, hs], by simp [Entry.serve, hs]⟩
    · rw [hno] at hs
      cases hs
  · intro hr he hs _
    have hgone : s.registered = false := hs
    rcases hreg with hreg | ⟨-, hframe⟩
    · rw [hreg, he] at hgone
      cases hgone
    · obtain ⟨m, rfl⟩ := hframe hr
      exact .inl (by simp [Entry.serve, he, hgone])
  · intro he why hwhy
    simp [Entry.serve, he, hwhy]
  · intro hr
    exact .inl (by rw [← hreplied]; exact hr)
  · intro he
    exact ⟨by rw [← he]; exact hended, hreplied⟩

end Entry

namespace Daemon

variable {timeout : Nat} {d d' : Daemon}

/-- **What a step does to the sessions.** Each one changes as above, or is new. -/
theorem Step.entry {l : DaemonLabel} (hs : Step timeout d l d') {id : Nat} {e' : Entry}
    (hget : d'.sessions[id]? = some e') :
    (∃ e, d.sessions[id]? = some e ∧
      e.Change (id ∈ d.handover.pc.pending) (∃ r ∈ d'.handover.records, r.1 = e.token) e') ∨
    (∃ i command sp resumable forwardAgent,
      l = .handler i (.request (.exec command resumable forwardAgent) (some sp)) ∧
      id = d.sessions.length ∧ e' = .start sp resumable forwardAgent d.now) := by
  have hsame : d'.sessions = d.sessions → ∃ e, d.sessions[id]? = some e ∧
      e.Change (id ∈ d.handover.pc.pending) (∃ r ∈ d'.handover.records, r.1 = e.token) e' :=
    fun h => ⟨e', h ▸ hget, .refl e'⟩
  have hmodify : ∀ {j : Nat} {f : Entry → Entry}, d'.sessions = d.sessions.modify j f →
      (∀ e, d.sessions[j]? = some e →
        e.Change (j ∈ d.handover.pc.pending) (∃ r ∈ d'.handover.records, r.1 = e.token) (f e)) →
      ∃ e, d.sessions[id]? = some e ∧
        e.Change (id ∈ d.handover.pc.pending) (∃ r ∈ d'.handover.records, r.1 = e.token) e' := by
    intro j f hd hf
    rw [hd] at hget
    obtain ⟨e, he, ⟨rfl, rfl⟩ | ⟨-, rfl⟩⟩ := Table.of_modify hget
    · exact ⟨e, he, hf e he⟩
    · exact ⟨e', he, .refl e'⟩
  cases hs with
  | @handler i h event _ hh hs =>
    cases hs with
    | @exec command resumable forwardAgent sp =>
      rcases Table.of_concat hget with hget | ⟨hid, he'⟩
      · exact .inl ⟨e', hget, .refl e'⟩
      · exact .inr ⟨i, command, sp, resumable, forwardAgent, rfl, hid, he'⟩
    | attach => exact .inl (hmodify rfl fun e _ => .of_session rfl rfl rfl)
    | drop => exact .inl (hmodify rfl fun e _ => .of_session rfl rfl rfl)
    | serve hp hentry hstep =>
      refine .inl (hmodify rfl fun e he => ?_)
      rw [hentry, Option.some.injEq] at he
      subst he
      exact .serve (Attach.Step.of_step hstep)
    | handshake => exact .inl (hsame rfl)
    | found => exact .inl (hsame rfl)
    | refused => exact .inl (hsame rfl)
    | noAgent => exact .inl (hsame rfl)
    | denied => exact .inl (hsame rfl)
  | task hentry hstep =>
    refine .inl (hmodify rfl fun e he => ?_)
    rw [hentry, Option.some.injEq] at he
    subst he
    exact .task hstep
  | sweepRemove => exact .inl (hmodify rfl fun e _ => .remove (.inl rfl))
  | sweepAbort => exact .inl (hmodify rfl fun e _ => .enqueue fun h => by cases h)
  | ask hp => exact .inl (hmodify rfl fun e _ => .enqueue fun _ => by simp [hp, HandoverPc.pending])
  | reply hp hentry =>
    refine .inl (hmodify rfl fun e he => .remove (.inr ?_))
    rw [hentry, Option.some.injEq] at he
    subst he
    exact ⟨_, List.mem_append_right _ (List.mem_singleton_self _), rfl⟩
  | wait => exact .inl (hsame rfl)
  | accept => exact .inl (hsame rfl)
  | sweepCollect => exact .inl (hsame rfl)
  | entries => exact .inl (hsame rfl)
  | skip => exact .inl (hsame rfl)
  | timedOut => exact .inl (hsame rfl)
  | write => exact .inl (hsame rfl)
  | exit => exact .inl (hsame rfl)

/-! ## The condition -/

/-- A request for this token does not meet a session that is being handed over: its session is in
the registry, or not on the list of the handover, or its task ended without answering. -/
def findable (d : Daemon) (token : String) : Bool :=
  (d.owner token).all fun id => d.sessions[id]?.all fun e =>
    e.session.registered || !d.handover.snapshot.contains id ||
      (e.session.ended && e.session.replied.isNone)

/-- The session the handover deals with next, or waits for, may be passed over. -/
def dispensable (d : Daemon) (id : Nat) : Bool := d.sessions[id]?.all (!·.session.registered)

/-- The condition on a step. -/
def undisturbed (d : Daemon) : DaemonLabel → Bool
  | .handler _ (.request (.exec _ resumable _) (some _)) => !resumable || d.handover.pc = .idle
  | .handler _ (.request (.resume token _) _) => d.findable token
  | .handler _ (.request (.agentChannel token) _) =>
    d.findable token &&
      (d.lookup token).all fun id => d.sessions[id]?.any (·.session.agent)
  | .handoverNext =>
    match d.handover.pc with
    | .next (id :: _) =>
      d.sessions[id]?.all fun e => !e.session.resumable || !e.session.ended || d.dispensable id
    | _ => true
  | .handoverTimeout =>
    match d.handover.pc with
    | .waiting id _ => d.dispensable id
    | _ => true
  | .handoverWrite ok => ok
  | _ => true

/-! ## The invariant -/

/-- What holds of a session while the daemon runs. -/
structure HandsOverEntry (d : Daemon) (id : Nat) (e : Entry) : Prop where
  unasked : id ∉ d.handover.snapshot →
    SessionInput.handover ∉ e.session.inbound ∧ e.session.replied = none
  gone : e.session.registered = true → e.gone = none
  left : e.session.resumable = true → e.session.registered = false →
    e.gone = some .exitAcked ∨ e.gone = some .expired ∨ ∃ r ∈ d.handover.records, r.1 = e.token
  waits : d.handover.pc ≠ .idle → e.session.resumable = true → e.session.registered = true →
    id ∈ d.handover.pc.pending

/-- The task of this session will never answer a handover request. -/
structure Silent (snapshot : List Nat) (id : Nat) (e : Entry) : Prop where
  replied : e.session.replied = none
  forever : e.session.ended = true ∨ e.session.registered = false ∧ id ∉ snapshot

end Daemon

/-- The session of a refused request. -/
def HandlerPc.refused? : HandlerPc → Option Nat
  | .denying owner _ | .denied owner _ => owner
  | _ => none

namespace Daemon

variable {timeout : Nat} {d d' : Daemon}

structure HandsOver (d : Daemon) : Prop where
  pending : ∀ id ∈ d.handover.pc.pending, id ∈ d.handover.snapshot
  idle : d.handover.pc = .idle → d.handover.snapshot = []
  written : d.handover.pc ≠ .done false
  exited : d.exited = true → d.handover.pc = .done true
  entry : ∀ id e, d.sessions[id]? = some e → HandsOverEntry d id e
  refused : ∀ h ∈ d.handlers, ∀ id, h.pc.refused? = some id → id < d.sessions.length
  silent : ∀ h ∈ d.handlers, ∀ id, h.pc.refused? = some id → ∀ e, d.sessions[id]? = some e →
    e.session.resumable = true → Silent d.handover.snapshot id e

/-- What a step does to the handover: its list is taken once, and its records only grow. -/
structure Onward (d d' : Daemon) : Prop where
  snapshot : d'.handover.snapshot = d.handover.snapshot ∨ d.handover.pc = .idle ∧
    ∀ id ∈ d'.handover.snapshot, ∃ e, d.sessions[id]? = some e ∧ e.session.registered = true
  records : ∀ r ∈ d.handover.records, r ∈ d'.handover.records

theorem Step.onward {l : DaemonLabel} (hs : Step timeout d l d') : Onward d d' := by
  cases hs with
  | handler hget hs => cases hs <;> exact ⟨.inl rfl, fun _ h => h⟩
  | entries hp hperm =>
    refine ⟨.inr ⟨hp, fun id hid => ?_⟩, fun _ h => h⟩
    have hmem := hperm.mem_iff.mp hid
    simp only [indices, List.mem_filter, Option.any_eq_true] at hmem
    exact hmem.2
  | reply => exact ⟨.inl rfl, fun _ h => List.mem_append_left _ h⟩
  | _ => exact ⟨.inl rfl, fun _ h => h⟩

section

variable {id : Nat} {e e' : Entry}

theorem Silent.change {asked handed : Prop} {snapshot : List Nat} (h : Silent snapshot id e)
    (hch : e.Change asked handed e')
    (hu : id ∉ snapshot → SessionInput.handover ∉ e.session.inbound) : Silent snapshot id e' := by
  by_cases hended : e.session.ended = true
  · obtain ⟨hended', hreplied⟩ := hch.ended hended
    exact ⟨by rw [hreplied, h.replied], .inl hended'⟩
  · obtain ⟨hreg, hid⟩ := h.forever.resolve_left hended
    refine ⟨?_, .inr ⟨?_, hid⟩⟩
    · by_contra hne
      rcases hch.replied (Option.isSome_iff_ne_none.mpr hne) with hr | hin
      · rw [h.replied] at hr
        cases hr
      · exact hu hid hin
    · by_contra hne
      rw [(hch.registered (by simpa using hne)).1] at hreg
      cases hreg

/-- Everything but the list of the handover is kept by any change of the session. -/
theorem HandsOverEntry.change (h : HandsOverEntry d id e) (hd : HandsOver d) (ho : Onward d d')
    (hch : e.Change (id ∈ d.handover.pc.pending) (∃ r ∈ d'.handover.records, r.1 = e.token) e')
    (hwaits : d'.handover.pc ≠ .idle → e'.session.resumable = true →
      e'.session.registered = true → id ∈ d'.handover.pc.pending) :
    HandsOverEntry d' id e' := by
  have hsnap : id ∉ d'.handover.snapshot → id ∉ d.handover.snapshot := by
    intro hid
    rcases ho.snapshot with hsame | ⟨hidle, -⟩
    · rwa [← hsame]
    · rw [hd.idle hidle]
      exact List.not_mem_nil
  refine ⟨?_, ?_, ?_, hwaits⟩
  · intro hid
    obtain ⟨hin, hreplied⟩ := h.unasked (hsnap hid)
    refine ⟨fun hmem => ?_, ?_⟩
    · rcases hch.inbound hmem with hmem | hasked
      · exact hin hmem
      · exact hsnap hid (hd.pending id hasked)
    · by_contra hne
      rcases hch.replied (Option.isSome_iff_ne_none.mpr hne) with hr | hmem
      · rw [hreplied] at hr
        cases hr
      · exact hin hmem
  · intro hreg
    rw [(hch.registered hreg).2]
    exact h.gone (hch.registered hreg).1
  · intro hres hreg
    have hres' : e.session.resumable = true := by rw [← hch.resumable]; exact hres
    rw [hch.token]
    by_cases hwas : e.session.registered = true
    · exact hch.leaves hres' hwas hreg (h.gone hwas)
    · have hwas : e.session.registered = false := by simpa using hwas
      rcases h.left hres' hwas with hg | hg | ⟨r, hr, htoken⟩
      · exact .inl (hch.keeps hwas _ hg)
      · exact .inr (.inl (hch.keeps hwas _ hg))
      · exact .inr (.inr ⟨r, ho.records r hr, htoken⟩)

end

/-- Every session that is still to be handed over is on the list. -/
theorem HandsOver.waits {l : DaemonLabel} (h : HandsOver d) (hc : d.undisturbed l = true)
    (hs : Step timeout d l d') {id : Nat} {e e' : Entry} (hget : d.sessions[id]? = some e)
    (hget' : d'.sessions[id]? = some e') (hres : e.session.resumable = true)
    (hreg : e.session.registered = true) (hreg' : e'.session.registered = true)
    (hne : d'.handover.pc ≠ .idle) : id ∈ d'.handover.pc.pending := by
  have hwaits := fun hidle => (h.entry id e hget).waits hidle hres hreg
  cases hs with
  | handler hh hs => cases hs <;> exact hwaits hne
  | entries hp hperm =>
    refine hperm.mem_iff.mpr ?_
    simp only [indices, List.mem_filter, List.mem_range]
    exact ⟨Table.lt_of_getElem? hget, by simp [hget, hreg]⟩
  | @skip id₀ rest e₀ hp hget₀ hskip =>
    rw [hp] at hwaits
    rcases List.mem_cons.mp (hwaits (by simp)) with rfl | hmem
    · -- The one that is skipped is not in the registry.
      rw [hget, Option.some.injEq] at hget₀
      subst hget₀
      have hended := hskip.resolve_left (by simp [hres])
      simp [undisturbed, hp, hget, hres, hended, dispensable, hreg] at hc
    · exact hmem
  | ask hp =>
    rw [hp] at hwaits
    exact hwaits (by simp)
  | @reply id₀ rest e₀ r fds hp hget₀ =>
    rw [hp] at hwaits
    rcases List.mem_cons.mp (hwaits (by simp)) with rfl | hmem
    · obtain ⟨e₁, -, ⟨-, rfl⟩ | ⟨hne', -⟩⟩ := Table.of_modify hget'
      · cases hreg'
      · exact absurd rfl hne'
    · exact hmem
  | @timedOut id₀ rest hp =>
    rw [hp] at hwaits
    rcases List.mem_cons.mp (hwaits (by simp)) with rfl | hmem
    · simp [undisturbed, hp, dispensable, hget, hreg] at hc
    · exact hmem
  | write hp =>
    rw [hp] at hwaits
    exact hwaits (by simp)
  | wait => exact hwaits hne
  | accept => exact hwaits hne
  | task => exact hwaits hne
  | sweepCollect => exact hwaits hne
  | sweepRemove => exact hwaits hne
  | sweepAbort => exact hwaits hne
  | exit => exact hwaits hne

theorem HandsOver.entry_step {l : DaemonLabel} (h : HandsOver d) (hc : d.undisturbed l = true)
    (hs : Step timeout d l d') {id : Nat} {e' : Entry} (hget : d'.sessions[id]? = some e') :
    HandsOverEntry d' id e' := by
  rcases hs.entry hget with ⟨e, he, hch⟩ | ⟨i, command, sp, resumable, agent, rfl, -, rfl⟩
  · refine (h.entry id e he).change h hs.onward hch fun hne hres hreg => ?_
    rw [hch.resumable] at hres
    exact h.waits hc hs he hget hres (hch.registered hreg).1 hreg hne
  · -- A new session: if it is resumable, no handover has begun.
    refine ⟨fun _ => ⟨List.not_mem_nil, rfl⟩, fun _ => rfl, fun _ hreg => (by cases hreg), ?_⟩
    intro hne hres _
    have hres : resumable = true := hres
    have hpc : d'.handover.pc = d.handover.pc := by
      cases hs with
      | handler hh hs => cases hs <;> rfl
    rw [hpc] at hne
    simp [undisturbed, hres, hne] at hc

/-- The session of a request that is refused now. -/
theorem silent_of_refused {token : String} {id : Nat} {e : Entry} (h : HandsOver d)
    (hc : d.findable token = true) (hfind : d.lookup token = none)
    (howner : d.owner token = some id) (hget : d.sessions[id]? = some e) :
    Silent d.handover.snapshot id e := by
  obtain ⟨hlt, htoken, -⟩ := List.findIdx?_eq_some_iff_getElem.mp howner
  rw [List.getElem?_eq_getElem hlt, Option.some.injEq] at hget
  rw [hget] at htoken
  have hreg : e.session.registered = false := by
    have := List.findIdx?_eq_none_iff.mp hfind e (hget ▸ List.getElem_mem hlt)
    simpa [htoken] using this
  have hget' : d.sessions[id]? = some e := by rw [List.getElem?_eq_getElem hlt, hget]
  by_cases hid : id ∈ d.handover.snapshot
  · have hend : e.session.ended = true ∧ e.session.replied = none := by
      simpa [findable, howner, hget', hreg, hid] using hc
    exact ⟨hend.2, .inl hend.1⟩
  · exact ⟨((h.entry id e hget').unasked hid).2, .inr ⟨hreg, hid⟩⟩

/-- A handler that has been refused was refused before, or is refused by this step. -/
theorem Step.refused {l : DaemonLabel} (h : HandsOver d) (hc : d.undisturbed l = true)
    (hs : Step timeout d l d') {hd : Handler} (hmem : hd ∈ d'.handlers) {id : Nat}
    (hid : hd.pc.refused? = some id) :
    (∃ hd₀ ∈ d.handlers, hd₀.pc.refused? = some id) ∨
      d'.sessions = d.sessions ∧ d'.handover = d.handover ∧ id < d.sessions.length ∧
        ∀ e, d.sessions[id]? = some e → Silent d.handover.snapshot id e := by
  cases hs with
  | @handler i hd₀ event _ hget hs =>
    have hset : ∀ pc : HandlerPc, hd ∈ d.handlers.set i { hd₀ with pc := pc } →
        pc.refused? = none ∨ pc.refused? = hd₀.pc.refused? →
        ∃ hd₀ ∈ d.handlers, hd₀.pc.refused? = some id := by
      intro pc hmem hpc
      rcases List.mem_or_eq_of_mem_set hmem with hmem | rfl
      · exact ⟨hd, hmem, hid⟩
      · rcases hpc with hpc | hpc
        · rw [hpc] at hid
          cases hid
        · exact ⟨hd₀, List.mem_of_getElem? hget, hpc ▸ hid⟩
    cases hs with
    | handshake hg hpc =>
      refine .inl (hset _ hmem (.inl ?_))
      revert hpc
      cases ‹HandlerPc› <;> simp [HandlerPc.plain, HandlerPc.refused?]
    | exec => exact .inl (hset _ hmem (.inl rfl))
    | found hp hfind hpc =>
      refine .inl (hset _ hmem (.inl ?_))
      revert hpc
      cases ‹HandlerPc› <;> simp [HandlerPc.session?, HandlerPc.refused?]
    | @refused r token spawned hp hr hfind =>
      rcases List.mem_or_eq_of_mem_set hmem with hmem | rfl
      · exact .inl ⟨hd, hmem, hid⟩
      · refine .inr ⟨rfl, rfl, (List.findIdx?_eq_some_iff_getElem.mp hid).1,
          fun e he => silent_of_refused h ?_ hfind hid he⟩
        rcases hr with ⟨n, rfl⟩ | rfl
        · exact hc
        · exact ((Bool.and_eq_true _ _).mp hc).1
    | noAgent hp hfind hno =>
      simp [undisturbed, hfind, hno] at hc
    | attach hfound hno hpc =>
      refine .inl (hset _ hmem (.inl ?_))
      revert hpc
      cases ‹HandlerPc› <;> simp [HandlerPc.session?, HandlerPc.refused?]
    | serve => exact .inl (hset _ hmem (.inl rfl))
    | drop => exact .inl (hset _ hmem (.inl rfl))
    | denied hp => exact .inl (hset _ hmem (.inr (by rw [hp]; rfl)))
  | accept =>
    rcases List.mem_append.mp hmem with hmem | hmem
    · exact .inl ⟨hd, hmem, hid⟩
    · rw [List.mem_singleton.mp hmem] at hid
      cases hid
  | _ => exact .inl ⟨hd, hmem, hid⟩

theorem Step.length_le {l : DaemonLabel} (hs : Step timeout d l d') :
    d.sessions.length ≤ d'.sessions.length := by
  cases hs with
  | handler hh hs => cases hs <;> simp [goTo, modify]
  | _ => simp [modify]

theorem HandsOver.refused_step {l : DaemonLabel} (h : HandsOver d) (hc : d.undisturbed l = true)
    (hs : Step timeout d l d') {hd : Handler} (hmem : hd ∈ d'.handlers) {id : Nat}
    (hid : hd.pc.refused? = some id) : id < d'.sessions.length := by
  rcases hs.refused h hc hmem hid with ⟨hd₀, hmem₀, hid₀⟩ | ⟨hsame, -, hlt, -⟩
  · exact (h.refused hd₀ hmem₀ id hid₀).trans_le hs.length_le
  · rw [hsame]
    exact hlt

theorem HandsOver.silent_step {l : DaemonLabel} (h : HandsOver d) (hc : d.undisturbed l = true)
    (hs : Step timeout d l d') {hd : Handler} (hmem : hd ∈ d'.handlers) {id : Nat} {e' : Entry}
    (hid : hd.pc.refused? = some id) (hget : d'.sessions[id]? = some e')
    (hres : e'.session.resumable = true) : Silent d'.handover.snapshot id e' := by
  rcases hs.refused h hc hmem hid with ⟨hd₀, hmem₀, hid₀⟩ | ⟨hsame, hho, -, hsilent⟩
  · rcases hs.entry hget with ⟨e, he, hch⟩ | ⟨-, -, -, -, -, -, hnew, -⟩
    · rw [hch.resumable] at hres
      have hsilent := h.silent hd₀ hmem₀ id hid₀ e he hres
      have hunasked := fun hid => ((h.entry id e he).unasked hid).1
      have hsilent' := hsilent.change hch hunasked
      rcases hs.onward.snapshot with heq | ⟨hidle, hregistered⟩
      · rw [heq]
        exact hsilent'
      · -- The list is taken now: only sessions in the registry are on it.
        refine ⟨hsilent'.replied, ?_⟩
        by_cases hended : e'.session.ended = true
        · exact .inl hended
        · have hreg := (hsilent.forever.resolve_left fun h => hended (hch.ended h).1).1
          refine .inr ⟨(hsilent'.forever.resolve_left hended).1, fun hlisted => ?_⟩
          obtain ⟨e₁, he₁, hreg₁⟩ := hregistered id hlisted
          rw [he, Option.some.injEq] at he₁
          rw [← he₁, hreg] at hreg₁
          cases hreg₁
    · exact absurd (h.refused hd₀ hmem₀ id hid₀) (by rw [hnew]; exact lt_irrefl _)
  · rw [hho]
    exact hsilent e' (hsame ▸ hget)

/-- The handover works off its list, and the process ends only behind it. -/
theorem HandsOver.list_step {l : DaemonLabel} (h : HandsOver d) (hc : d.undisturbed l = true)
    (hex : d.exited = false) (hs : Step timeout d l d') :
    (∀ id ∈ d'.handover.pc.pending, id ∈ d'.handover.snapshot) ∧
      (d'.handover.pc = .idle → d'.handover.snapshot = []) ∧ d'.handover.pc ≠ .done false ∧
      (d'.exited = true → d'.handover.pc = .done true) := by
  have hno : ∀ {p : Prop}, d.exited = true → p := fun hyes => by rw [hex] at hyes; cases hyes
  -- A place `pc` within the list.
  have hwithin : ∀ pc : HandoverPc, (∀ id ∈ pc.pending, id ∈ d.handover.pc.pending) →
      pc ≠ .idle → pc ≠ .done false → (∀ id ∈ pc.pending, id ∈ d.handover.snapshot) ∧
        (pc = .idle → d.handover.snapshot = []) ∧ pc ≠ .done false ∧
        (d.exited = true → pc = .done true) :=
    fun pc hpending hidle hdone =>
      ⟨fun id hid => h.pending id (hpending id hid), fun hp => absurd hp hidle, hdone, hno⟩
  cases hs with
  | handler hh hs => cases hs <;> exact ⟨h.pending, h.idle, h.written, hno⟩
  | entries => exact ⟨fun _ hid => hid, fun hp => (by cases hp), fun hp => (by cases hp), hno⟩
  | skip hp =>
    refine hwithin _ (fun id hid => ?_) (by simp) (by simp)
    rw [hp]
    exact List.mem_cons_of_mem _ hid
  | ask hp =>
    refine hwithin _ (fun id hid => ?_) (by simp) (by simp)
    rw [hp]
    exact hid
  | reply hp =>
    refine hwithin _ (fun id hid => ?_) (by simp) (by simp)
    rw [hp]
    exact List.mem_cons_of_mem _ hid
  | timedOut hp =>
    refine hwithin _ (fun id hid => ?_) (by simp) (by simp)
    rw [hp]
    exact List.mem_cons_of_mem _ hid
  | @write ok =>
    have hok : ok = true := hc
    subst hok
    exact ⟨fun _ hid => (by cases hid), fun hp => (by cases hp), fun hp => (by cases hp), hno⟩
  | @exit ok hp =>
    refine ⟨h.pending, h.idle, h.written, fun _ => ?_⟩
    have hok : ok ≠ false := fun hok => h.written (hok ▸ hp)
    rw [hp, (Bool.not_eq_false ok).mp hok]
  | wait => exact ⟨h.pending, h.idle, h.written, hno⟩
  | accept => exact ⟨h.pending, h.idle, h.written, hno⟩
  | task => exact ⟨h.pending, h.idle, h.written, hno⟩
  | sweepCollect => exact ⟨h.pending, h.idle, h.written, hno⟩
  | sweepRemove => exact ⟨h.pending, h.idle, h.written, hno⟩
  | sweepAbort => exact ⟨h.pending, h.idle, h.written, hno⟩

theorem HandsOver.step {l : DaemonLabel} (h : HandsOver d) (hc : d.undisturbed l = true)
    (hs : d.step timeout l = some d') : HandsOver d' := by
  obtain ⟨hex, hs⟩ := Step.of_step hs
  obtain ⟨hpending, hidle, hwritten, hexited⟩ := h.list_step hc hex hs
  exact ⟨hpending, hidle, hwritten, hexited, fun _ _ hget => h.entry_step hc hs hget,
    fun _ hmem _ hid => h.refused_step hc hs hmem hid,
    fun _ hmem _ hid _ hget hres => h.silent_step hc hs hmem hid hget hres⟩

theorem handsOver_start {restored : List Entry} (h : ∀ e ∈ restored, e.Restored) :
    HandsOver (start restored) where
  pending id hid := by cases hid
  idle _ := rfl
  written hp := by cases hp
  exited hex := by cases hex
  entry id e he := by
    have hr := h e (List.mem_of_getElem? he)
    refine ⟨fun _ => ⟨?_, ?_⟩, fun _ => hr.gone, fun _ hreg => ?_, fun hne => absurd rfl hne⟩
    · rw [hr.inbound]
      exact List.not_mem_nil
    · rw [Session.replied, hr.phase]
    · rw [hr.registered] at hreg
      cases hreg
  refused h hh := by cases hh
  silent h hh := by cases hh

theorem handsOver_under (h : (daemonMachine timeout).Under (fun d l => d.undisturbed l = true) d) :
    HandsOver d := by
  refine h.invariant ?_ fun _ _ _ hd hc hs => hd.step hc hs
  rintro d ⟨restored, -, hrestored, rfl⟩
  exact handsOver_start hrestored

/-! ## The theorem -/

/-- The token is among the records that are, or will be, in `sessions.json`. -/
def recorded (d : Daemon) (token : String) : Bool :=
  d.handover.pc ≠ .done false && d.handover.records.any (·.1 == token)

/-- No client is denied a session that is handed over, and every session whose client got its
token is served, recorded, or over: its Exit was acknowledged, or it expired. -/
structure HandoverInvisible (d : Daemon) : Prop where
  notDenied : ∀ h ∈ d.handlers, ∀ id reason e, h.pc = .denied (some id) reason →
    d.sessions[id]? = some e → e.session.resumable = true → e.session.replied = none
  kept : ∀ e ∈ d.sessions, e.announced = true → e.session.resumable = true →
    (d.exited = false ∧ e.session.registered = true) ∨ d.recorded e.token = true ∨
      e.gone = some .exitAcked ∨ e.gone = some .expired

theorem HandsOver.recorded (h : HandsOver d) {token : String}
    (hr : ∃ r ∈ d.handover.records, r.1 = token) : d.recorded token = true := by
  obtain ⟨r, hmem, htoken⟩ := hr
  have hany : d.handover.records.any (·.1 == token) = true :=
    List.any_eq_true.mpr ⟨r, hmem, by simpa using htoken⟩
  rw [Daemon.recorded, hany, Bool.and_true]
  exact decide_eq_true h.written

/-- **Handover is invisible to connections in their handshake**, unless one of them meets it
between its list and the end of the process. -/
theorem handover_invisible
    (h : (daemonMachine timeout).Under (fun d l => d.undisturbed l = true) d) :
    HandoverInvisible d := by
  have hd := handsOver_under h
  refine ⟨fun hd' hmem id reason e hp he hres => ?_, fun e hmem _ hres => ?_⟩
  · exact (hd.silent hd' hmem id (by rw [hp]; rfl) e he hres).replied
  · obtain ⟨id, hget⟩ := List.mem_iff_getElem?.mp hmem
    have he := hd.entry id e hget
    by_cases hreg : e.session.registered = true
    · left
      refine ⟨?_, hreg⟩
      by_contra hex
      have hp := hd.exited (by simpa using hex)
      -- Behind the handover no resumable session is left in the registry.
      have hwaits := he.waits (by rw [hp]; simp) hres hreg
      rw [hp] at hwaits
      cases hwaits
    · right
      rcases he.left hres (by simpa using hreg) with hg | hg | hr
      · exact .inr (.inl hg)
      · exact .inr (.inr hg)
      · exact .inl (hd.recorded hr)

/-- A client that has been greeted resumes its session between the list and the session's removal,
and gets `Started` behind the removal. Then the daemon ends. -/
def resumedMeanwhileRun : List DaemonLabel :=
  greets 0 ++ [.handoverEntries [0], .handler 0 (.request (.resume "7-1-0" 0) none), .handoverNext,
    .handler 0 .attach, .task 0 .recv, .handoverReply, .handler 0 (.serve .sent),
    .handoverWrite true, .exit]

def handedOver : Daemon :=
  ((daemonMachine 10).runIf undisturbed (start [.away "7-1-0" false]) resumedMeanwhileRun).get
    (by decide)

theorem handedOver_invisible :
    (daemonMachine 10).Under (fun d l => d.undisturbed l = true) handedOver ∧
    handedOver.exited = true ∧ handedOver.recorded "7-1-0" = true ∧
    handedOver.sessions.map (·.announced) = [true] ∧ HandoverInvisible handedOver := by
  have hunder : (daemonMachine 10).Under (fun d l => d.undisturbed l = true) handedOver := by
    refine Machine.under_of_runIf (.init ?_) (Option.some_get _).symm
    refine ⟨_, by decide, ?_, rfl⟩
    simp [Entry.restored_away]
  exact ⟨hunder, by decide, by decide, by decide, handover_invisible hunder⟩

/-- A client authenticates while its session is handed over, and asks for it afterwards. -/
def lateRequestRun : List DaemonLabel :=
  greets 0 ++ [.handoverEntries [0], .handoverNext, .task 0 .recv, .handoverReply,
    .handler 0 (.request (.resume "7-1-0" 0) none), .handler 0 (.denySent true)]

def lateRequest : Daemon :=
  ((daemonMachine 10).run (start [.away "7-1-0" false]) lateRequestRun).get (by decide)

/-- What `start_session` gives for a new command. -/
def spawnedLate : Spawned := ⟨"7-1-1", .pipe 4, .pipe 5, .pipe 6, .pipe 7, 8⟩

/-- A command is started after the handover took its list. -/
def lateExecRun : List DaemonLabel :=
  greets 0 ++ [.handoverEntries [], .handler 0 (.request (.exec "sh" true false) (some spawnedLate)),
    .handler 0 .attach, .handler 0 (.serve .sent), .handoverWrite true, .exit]

def lateExec : Daemon := ((daemonMachine 10).run (start []) lateExecRun).get (by decide)

/-- The first client is denied a session that the next daemon will serve; the second one has its
token, and its session is lost. -/
theorem handover_breaks_handshakes :
    ((daemonMachine 10).Reachable lateRequest ∧
      lateRequest.handlers = [⟨false, .denied (some 0) "unknown resume token"⟩] ∧
      lateRequest.recorded "7-1-0" = true ∧ ¬ HandoverInvisible lateRequest) ∧
    ((daemonMachine 10).Reachable lateExec ∧ lateExec.exited = true ∧
      lateExec.sessions.map (fun e => (e.token, e.announced)) = [("7-1-1", true)] ∧
      lateExec.handover.records = [] ∧ ¬ HandoverInvisible lateExec) := by
  refine ⟨⟨?_, by decide, by decide, fun hinv => ?_⟩, ⟨?_, by decide, by decide, by decide,
    fun hinv => ?_⟩⟩
  · refine Machine.reachable_of_run ?_ (Option.some_get _).symm
    refine ⟨_, by decide, ?_, rfl⟩
    simp [Entry.restored_away]
  · have hget : lateRequest.sessions[0]?.isSome = true := by decide
    obtain ⟨e, he⟩ := Option.isSome_iff_exists.mp hget
    have hmem : (⟨false, .denied (some 0) "unknown resume token"⟩ : Handler) ∈
        lateRequest.handlers := by decide
    have hall : ∀ e ∈ lateRequest.sessions[0]?, e.session.resumable = true ∧
        e.session.replied ≠ none := by decide
    exact (hall e he).2 (hinv.notDenied _ hmem 0 _ e rfl he (hall e he).1)
  · exact Machine.reachable_of_run ⟨[], by decide, by simp, rfl⟩ (Option.some_get _).symm
  · have hall : ∀ e ∈ lateExec.sessions, ¬ ((lateExec.exited = false ∧
        e.session.registered = true) ∨ lateExec.recorded e.token = true ∨
        e.gone = some .exitAcked ∨ e.gone = some .expired) := by decide
    have hann : ∃ e ∈ lateExec.sessions, e.announced = true ∧ e.session.resumable = true := by
      decide
    obtain ⟨e, hmem, hyes, hres⟩ := hann
    exact hall e hmem (hinv.kept e hmem hyes hres)

end Daemon

end HerdrEternal
