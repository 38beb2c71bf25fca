import HerdrEternal.Lib.Table
import HerdrEternal.Server.Daemon

/-!
# Expiry and attached clients

`expire_sessions` collects the sessions that no connection is attached to, and only afterwards
takes them out of the registry and aborts them, one by one. A client that resumes one of them in
between finds it in the registry, attaches, gets `Started`, and is aborted nevertheless
(`resumed_session_expires`).

**Theorem (`expiry_spares_attached`).** In every run in which no handler takes an `AttachGuard` on
a session that the running sweep has collected and not yet aborted, no connection is attached to a
session that the sweep takes out of the registry or aborts. A guard that is taken once the `Abort`
is queued, before the session's task takes it, comes too late for either.

The invariant `Counted` ties the counter that the sweep looks at to the handlers that hold a guard.
-/

namespace HerdrEternal

namespace Daemon

variable {timeout : Nat} {d d' : Daemon}

/-! ## Guards and the attach counter -/

/-- How many handlers hold an `AttachGuard` on a session. -/
def guards (handlers : List Handler) (id : Nat) : Nat :=
  handlers.countP fun h => decide (h.pc.guard? = some id)

/-- A session's counter is the number of its guards, and while there is one it has no detach
time. -/
structure Counted (sessions : List Entry) (handlers : List Handler) : Prop where
  attached : ∀ (id : Nat) (e : Entry), sessions[id]? = some e → e.attached = guards handlers id
  detached : ∀ (id : Nat) (e : Entry), sessions[id]? = some e → e.attached ≠ 0 → e.detachedAt = none
  refers : ∀ h ∈ handlers, ∀ id, h.pc.session? = some id → id < sessions.length

theorem session_of_guard {pc : HandlerPc} {id : Nat} (h : pc.guard? = some id) :
    pc.session? = some id := by
  cases pc <;> simp_all [HandlerPc.guard?, HandlerPc.session?]

theorem no_guard_of_plain {pc : HandlerPc} (h : pc.plain = true) :
    pc.guard? = none ∧ pc.session? = none := by
  cases pc <;> simp_all [HandlerPc.plain, HandlerPc.guard?, HandlerPc.session?]

theorem guards_eq_zero {handlers : List Handler} {id : Nat} :
    guards handlers id = 0 ↔ ∀ h ∈ handlers, h.pc.guard? ≠ some id := by
  simp [guards, List.countP_eq_zero]

section

variable {sessions : List Entry} {handlers : List Handler} {i : Nat} {h : Handler}
  {pc : HandlerPc}

theorem guards_set (hget : handlers[i]? = some h) (pc : HandlerPc) (id : Nat) :
    guards (handlers.set i { h with pc := pc }) id + (decide (h.pc.guard? = some id)).toNat =
      guards handlers id + (decide (pc.guard? = some id)).toNat :=
  Table.countP_set_add hget

theorem guards_take {id : Nat} (hget : handlers[i]? = some h) (hno : h.pc.guard? = none)
    (hg : pc.guard? = some id) :
    guards (handlers.set i { h with pc := pc }) id = guards handlers id + 1 := by
  have := guards_set hget pc id
  simpa [hno, hg] using this

theorem guards_leave {id : Nat} (hget : handlers[i]? = some h) (hg : h.pc.guard? = some id)
    (hno : pc.guard? ≠ some id) :
    guards (handlers.set i { h with pc := pc }) id + 1 = guards handlers id := by
  have := guards_set hget pc id
  simpa [hno, hg] using this

theorem guards_other {id : Nat} (hget : handlers[i]? = some h) (hno : h.pc.guard? ≠ some id)
    (hno' : pc.guard? ≠ some id) :
    guards (handlers.set i { h with pc := pc }) id = guards handlers id := by
  have := guards_set hget pc id
  simpa [hno, hno'] using this

theorem guards_set_of_eq (hget : handlers[i]? = some h) (hg : pc.guard? = h.pc.guard?) (id : Nat) :
    guards (handlers.set i { h with pc := pc }) id = guards handlers id := by
  refine Table.countP_set_of_eq hget ?_
  rw [hg]

theorem Counted.refers_set (hc : Counted sessions handlers)
    (hpc : ∀ id, pc.session? = some id → id < sessions.length) :
    ∀ h' ∈ handlers.set i { h with pc := pc }, ∀ id, h'.pc.session? = some id →
      id < sessions.length := by
  intro h' hh' id hid
  rcases List.mem_or_eq_of_mem_set hh' with hh' | rfl
  · exact hc.refers h' hh' id hid
  · exact hpc id hid

/-- A handler goes on without taking or dropping a guard. -/
theorem Counted.goTo (hc : Counted sessions handlers) (hget : handlers[i]? = some h)
    (hg : pc.guard? = h.pc.guard?) (hpc : ∀ id, pc.session? = some id → id < sessions.length) :
    Counted sessions (handlers.set i { h with pc := pc }) where
  attached id e he := by rw [guards_set_of_eq hget hg, hc.attached id e he]
  detached := hc.detached
  refers := hc.refers_set hpc

/-- A session changes, but neither its counter nor its detach time. -/
theorem Counted.modify (hc : Counted sessions handlers) {id : Nat} {f : Entry → Entry}
    (hf : ∀ e, (f e).attached = e.attached ∧ (f e).detachedAt = e.detachedAt) :
    Counted (sessions.modify id f) handlers where
  attached j e he := by
    obtain ⟨e₀, he₀, ⟨-, rfl⟩ | ⟨-, rfl⟩⟩ := Table.of_modify he
    · rw [(hf e₀).1, hc.attached j e₀ he₀]
    · exact hc.attached j e he₀
  detached j e he hne := by
    obtain ⟨e₀, he₀, ⟨-, rfl⟩ | ⟨-, rfl⟩⟩ := Table.of_modify he
    · rw [(hf e₀).2]
      exact hc.detached j e₀ he₀ (by rwa [(hf e₀).1] at hne)
    · exact hc.detached j e he₀ hne
  refers h hh j hj := by
    rw [List.length_modify]
    exact hc.refers h hh j hj

theorem Counted.attach {id : Nat} (hc : Counted sessions handlers) (hget : handlers[i]? = some h)
    (hfound : h.pc.session? = some id) (hno : h.pc.guard? = none) (hpc : pc.session? = some id)
    (hg : pc.guard? = some id) :
    Counted (sessions.modify id Entry.attach) (handlers.set i { h with pc := pc }) where
  attached j e he := by
    obtain ⟨e₀, he₀, ⟨rfl, rfl⟩ | ⟨hne, rfl⟩⟩ := Table.of_modify he
    · rw [guards_take hget hno hg, ← hc.attached j e₀ he₀]
      rfl
    · rw [guards_other hget (by simp [hno]) (by simp [hg, hne.symm]), hc.attached j e he₀]
  detached j e he hne := by
    obtain ⟨e₀, he₀, ⟨rfl, rfl⟩ | ⟨-, rfl⟩⟩ := Table.of_modify he
    · rfl
    · exact hc.detached j e he₀ hne
  refers := by
    rw [List.length_modify]
    refine hc.refers_set fun j hj => ?_
    rw [hpc, ← hfound] at hj
    exact hc.refers h (List.mem_of_getElem? hget) j hj

theorem Counted.drop {id now : Nat} (hc : Counted sessions handlers) (hget : handlers[i]? = some h)
    (hg : h.pc.guard? = some id) :
    Counted (sessions.modify id (·.drop now)) (handlers.set i { h with pc := .closed }) where
  attached j e he := by
    obtain ⟨e₀, he₀, ⟨rfl, rfl⟩ | ⟨hne, rfl⟩⟩ := Table.of_modify he
    · have hleave : guards (handlers.set i { h with pc := .closed }) j + 1 = guards handlers j :=
        guards_leave hget hg (by simp [HandlerPc.guard?])
      rw [Entry.drop, hc.attached j e₀ he₀, ← hleave]
      rfl
    · rw [guards_other hget (by simp [hg, hne.symm]) (by simp [HandlerPc.guard?]),
        hc.attached j e he₀]
  detached j e he hne := by
    obtain ⟨e₀, he₀, ⟨rfl, rfl⟩ | ⟨-, rfl⟩⟩ := Table.of_modify he
    · simp only [Entry.drop] at hne ⊢
      rw [if_neg (by omega)]
      exact hc.detached j e₀ he₀ (by omega)
    · exact hc.detached j e he₀ hne
  refers := by
    rw [List.length_modify]
    exact hc.refers_set fun j hj => by cases hj

theorem Counted.concat {e : Entry} (hc : Counted sessions handlers) (hget : handlers[i]? = some h)
    (hno : h.pc.guard? = none) (he : e.attached = 0) :
    Counted (sessions ++ [e])
      (handlers.set i { h with pc := .found sessions.length 0 }) where
  attached j e' he' := by
    rw [guards_set_of_eq hget (by rw [hno]; rfl)]
    rcases Table.of_concat he' with he' | ⟨rfl, rfl⟩
    · exact hc.attached j e' he'
    · rw [he, eq_comm, guards_eq_zero]
      intro h' hh' hg
      exact absurd (hc.refers h' hh' _ (session_of_guard hg)) (lt_irrefl _)
  detached j e' he' hne := by
    rcases Table.of_concat he' with he' | ⟨rfl, rfl⟩
    · exact hc.detached j e' he' hne
    · exact absurd he hne
  refers h' hh' j hj := by
    rw [List.length_append, List.length_singleton]
    rcases List.mem_or_eq_of_mem_set hh' with hh' | rfl
    · exact (hc.refers h' hh' j hj).trans (Nat.lt_succ_self _)
    · cases hj
      exact Nat.lt_succ_self _

end

/-- Every step of the daemon keeps the counters right. -/
theorem Counted.step {l : DaemonLabel} (hc : Counted d.sessions d.handlers)
    (hs : Step timeout d l d') : Counted d'.sessions d'.handlers := by
  cases hs with
  | handler hget hs =>
    cases hs with
    | handshake hg hpc =>
      obtain ⟨hno, hnone⟩ := no_guard_of_plain hpc
      exact hc.goTo hget (by rw [hno, hg]) fun id hid => by rw [hnone] at hid; cases hid
    | exec hp => exact hc.concat hget (by rw [hp]; rfl) rfl
    | @found r token spawned id pc hp hfind hpc hg =>
      refine hc.goTo hget (by rw [hg, hp]; rfl) fun id' hid' => ?_
      rw [hpc, Option.some.injEq] at hid'
      rw [← hid']
      exact (List.findIdx?_eq_some_iff_getElem.mp hfind).1
    | refused hp => exact hc.goTo hget (by rw [hp]; rfl) fun id hid => by cases hid
    | noAgent hp => exact hc.goTo hget (by rw [hp]; rfl) fun id hid => by cases hid
    | attach hfound hno hpc hg => exact hc.attach hget hfound hno hpc hg
    | @serve id a a' entry event s hp hentry hstep =>
      refine (hc.goTo hget (by rw [hp]; rfl) fun id' hid' => ?_).modify fun e => ⟨rfl, rfl⟩
      cases hid'
      exact Table.lt_of_getElem? hentry
    | drop hg => exact hc.drop hget hg
    | denied hp => exact hc.goTo hget (by rw [hp]; rfl) fun id hid => by cases hid
  | accept =>
    refine ⟨fun id e he => ?_, hc.detached, fun h hh id hid => ?_⟩
    · rw [hc.attached id e he]
      simp [guards, HandlerPc.guard?]
    · rcases List.mem_append.mp hh with hh | hh
      · exact hc.refers h hh id hid
      · rw [List.mem_singleton.mp hh] at hid
        cases hid
  | wait => exact hc
  | task => exact hc.modify fun e => ⟨rfl, rfl⟩
  | sweepCollect => exact hc
  | sweepRemove => exact hc.modify fun e => ⟨rfl, rfl⟩
  | sweepAbort => exact hc.modify fun e => ⟨rfl, rfl⟩
  | entries => exact hc
  | skip => exact hc
  | ask => exact hc.modify fun e => ⟨rfl, rfl⟩
  | reply => exact hc.modify fun e => ⟨rfl, rfl⟩
  | timedOut => exact hc
  | write => exact hc
  | exit => exact hc

theorem counted_start {restored : List Entry} (h : ∀ e ∈ restored, e.Restored) :
    Counted (start restored).sessions (start restored).handlers where
  attached id e he := (h e (List.mem_of_getElem? he)).attached
  detached id e he hne := absurd (h e (List.mem_of_getElem? he)).attached hne
  refers h hh := by cases hh

/-! ## What the sweep does to attached sessions -/

/-- The condition: no guard is taken on a session that a running sweep has collected and not yet
aborted. -/
def attachesUncollected (d : Daemon) : DaemonLabel → Bool
  | .handler i .attach =>
    (d.handlers[i]?.bind (·.pc.session?)).all fun id => !d.sweep.contains id
  | _ => true

/-- When the sweep takes a session out of the registry or aborts it, no connection is attached to
it. -/
def ExpirySparesAttached (timeout : Nat) (d : Daemon) : Prop :=
  ∀ l d', l = .sweepRemove ∨ l = .sweepAbort → d.step timeout l = some d' →
    ∀ id, d.sweep.head? = some id → ∀ h ∈ d.handlers, h.pc.guard? ≠ some id

/-- The invariant: what the sweep collected has no guard. -/
structure Spares (d : Daemon) : Prop where
  counted : Counted d.sessions d.handlers
  collected : ∀ id ∈ d.sweep, guards d.handlers id = 0

theorem guards_goTo_zero {i id : Nat} {h : Handler} {pc : HandlerPc}
    (hget : d.handlers[i]? = some h) (hzero : guards d.handlers id = 0)
    (hpc : pc.guard? ≠ some id) : guards (d.goTo i h pc).handlers id = 0 := by
  have hadd := guards_set hget pc id
  rw [hzero, decide_eq_false hpc] at hadd
  exact Nat.eq_zero_of_add_eq_zero_right hadd

theorem Spares.collected_step {l : DaemonLabel} (h : Spares d)
    (hcond : d.attachesUncollected l = true) (hs : Step timeout d l d') :
    ∀ id ∈ d'.sweep, guards d'.handlers id = 0 := by
  cases hs with
  | @handler i hd e d' hget hs =>
    intro id hid
    cases hs with
    | handshake hg hpc =>
      refine guards_goTo_zero hget (h.collected id hid) ?_
      rw [(no_guard_of_plain hpc).1]
      simp
    | exec => exact guards_goTo_zero hget (h.collected id hid) (by simp [HandlerPc.guard?])
    | found hp hfind hpc hg =>
      refine guards_goTo_zero hget (h.collected id hid) ?_
      rw [hg]
      simp
    | refused => exact guards_goTo_zero hget (h.collected id hid) (by simp [HandlerPc.guard?])
    | noAgent => exact guards_goTo_zero hget (h.collected id hid) (by simp [HandlerPc.guard?])
    | attach hfound hno hpc hg =>
      refine guards_goTo_zero hget (h.collected id hid) ?_
      rw [hg]
      rintro ⟨rfl⟩
      have huncollected : id ∉ d.sweep := by
        simpa [attachesUncollected, hget, hfound] using hcond
      exact huncollected hid
    | serve hp =>
      show guards (d.handlers.set i _) id = 0
      rw [guards_set_of_eq hget (by rw [hp]; rfl)]
      exact h.collected id hid
    | drop => exact guards_goTo_zero hget (h.collected id hid) (by simp [HandlerPc.guard?])
    | denied => exact guards_goTo_zero hget (h.collected id hid) (by simp [HandlerPc.guard?])
  | accept =>
    intro id hid
    simpa [guards, HandlerPc.guard?] using h.collected id hid
  | @sweepCollect expired hno hperm =>
    -- A collected session has a detach time, so its counter is zero.
    intro id hid
    have hmem := hperm.mem_iff.mp hid
    simp only [indices, List.mem_filter, List.mem_range] at hmem
    obtain ⟨hlt, hany⟩ := hmem
    rw [List.getElem?_eq_getElem hlt] at hany
    have hget := List.getElem?_eq_getElem hlt
    by_contra hne
    rw [← h.counted.attached id _ hget] at hne
    have hnone := h.counted.detached id _ hget hne
    simp [Entry.expired, hnone] at hany
  | sweepAbort hsw =>
    intro id hid
    exact h.collected id (by rw [hsw]; exact List.mem_cons_of_mem _ hid)
  | wait => exact h.collected
  | task => exact h.collected
  | sweepRemove => exact h.collected
  | entries => exact h.collected
  | skip => exact h.collected
  | ask => exact h.collected
  | reply => exact h.collected
  | timedOut => exact h.collected
  | write => exact h.collected
  | exit => exact h.collected

theorem spares_under
    (h : (daemonMachine timeout).Under (fun d l => d.attachesUncollected l = true) d) :
    Spares d := by
  refine h.invariant ?_ ?_
  · rintro d ⟨restored, -, hrestored, rfl⟩
    exact ⟨counted_start hrestored, fun id hid => by cases hid⟩
  · intro d l d' hd hcond hs
    obtain ⟨-, hs⟩ := Step.of_step hs
    exact ⟨hd.counted.step hs, hd.collected_step hcond hs⟩

/-- **Expiry spares attached sessions**, unless a client attaches in the middle of a sweep. -/
theorem expiry_spares_attached
    (h : (daemonMachine timeout).Under (fun d l => d.attachesUncollected l = true) d) :
    ExpirySparesAttached timeout d := by
  intro l d' _ _ id hid
  have hmem : id ∈ d.sweep := List.mem_of_mem_head? hid
  exact guards_eq_zero.mp ((spares_under h).collected id hmem)

/-- The handshake of a connection that resumes a session, up to the lookup. -/
def resumes (i : Nat) (token : String) : List DaemonLabel :=
  greets i ++ [.handler i (.request (.resume token 0) none)]

/-- Two sessions wait for their clients; one of them comes back in time. -/
def expiryRun : List DaemonLabel :=
  resumes 0 "7-1-1" ++ [.handler 0 .attach, .wait 10, .sweepCollect [0], .handler 0 (.serve .sent)]

def expiring : Daemon :=
  ((daemonMachine 10).runIf attachesUncollected
    (start [.away "7-1-0" false, .away "7-1-1" false]) expiryRun).get (by decide)

theorem expiring_spares_attached :
    (daemonMachine 10).Under (fun d l => d.attachesUncollected l = true) expiring ∧
    (expiring.step 10 .sweepRemove).isSome = true ∧ expiring.sweep = [0] ∧
    (∃ h ∈ expiring.handlers, h.pc.guard? = some 1) ∧
    ∀ h ∈ expiring.handlers, h.pc.guard? ≠ some 0 := by
  have hunder : (daemonMachine 10).Under (fun d l => d.attachesUncollected l = true) expiring := by
    refine Machine.under_of_runIf (.init ?_) (Option.some_get _).symm
    refine ⟨_, by decide, ?_, rfl⟩
    simp [Entry.restored_away]
  have hstep : (expiring.step 10 .sweepRemove).isSome = true := by decide
  obtain ⟨d', hd'⟩ := Option.isSome_iff_exists.mp hstep
  exact ⟨hunder, hstep, by decide, by decide,
    expiry_spares_attached hunder .sweepRemove d' (.inl rfl) hd' 0 (by decide)⟩

/-- The client comes back between the collecting of the sweep and its first action. -/
def lateResumeRun : List DaemonLabel :=
  .wait 10 :: resumes 0 "7-1-0" ++
    [.sweepCollect [0], .handler 0 .attach, .handler 0 (.serve .sent),
      .handler 0 (.serve .snapshot)]

def lateResume : Daemon :=
  ((daemonMachine 10).run (start [.away "7-1-0" false]) lateResumeRun).get (by decide)

/-- Its `Started` has been sent, and the session is aborted under it. -/
theorem resumed_session_expires :
    (daemonMachine 10).Reachable lateResume ∧
    lateResume.handlers = [⟨false, .attached 0 ⟨"7-1-0", 0, 0, none, 0, .select⟩⟩] ∧
    ((daemonMachine 10).run lateResume [.sweepRemove, .sweepAbort, .task 0 .recv]).map
      (fun d => (d.handlers, d.sessions.map (·.session.task.phase))) =
      some (lateResume.handlers, [.aborting]) ∧
    ¬ ExpirySparesAttached 10 lateResume := by
  refine ⟨?_, by decide, by decide, ?_⟩
  · refine Machine.reachable_of_run ?_ (Option.some_get _).symm
    refine ⟨_, by decide, ?_, rfl⟩
    simp [Entry.restored_away]
  · intro hspares
    have hstep : (lateResume.step 10 .sweepRemove).isSome = true := by decide
    obtain ⟨d', hd'⟩ := Option.isSome_iff_exists.mp hstep
    exact hspares .sweepRemove d' (.inl rfl) hd' 0 (by decide)
      ⟨false, .attached 0 ⟨"7-1-0", 0, 0, none, 0, .select⟩⟩ (by decide) rfl

end Daemon

end HerdrEternal
