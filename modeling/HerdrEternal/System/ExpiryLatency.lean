import HerdrEternal.Lib.Interval
import HerdrEternal.System.Expiry
import HerdrEternal.System.HandoverRace

/-!
# When sessions expire

`expire_sessions` sweeps the registry at the ticks of an interval. Each sweep collects the sessions
that no client has been attached to for the timeout, and then takes them out one by one. It does
not wait in between, but other threads run meanwhile.

`TimedDaemon` is the daemon with this interval. The sweep starts at most `lag` after its tick is
due, and takes at most `lag`. Times are in milliseconds.

**Theorem (`expires_in_time`).** In every run:

* No session stays in the registry for longer than the timeout, one period of the interval and
  twice `lag` after its last client detached, or after it was restored or started without one. The
  period is a tenth of the timeout, but at least 10 milliseconds.
* As long as no client attaches to a session that the running sweep has collected, the sweep only
  takes out sessions that no client has been attached to for the timeout.
* The clock does not stop before the process has ended.

What one sweep missed had not been detached for the timeout, and the next one is not far
(`Swept.missed`).
-/

namespace HerdrEternal

/-- The period of the interval in `expire_sessions`. -/
def sweepPeriod (timeout : Nat) : Nat := max (timeout / 10) 10

structure TimedDaemon where
  daemon : Daemon
  timer : TickInterval
  /-- History: when a sweep last collected, or else when the daemon started. -/
  sweptAt : Nat
  deriving DecidableEq

namespace Daemon

variable {timeout : Nat} {d d' : Daemon} {l : DaemonLabel} {id t : Nat}

/-- The session is in the registry, and no client has been attached to it since. -/
def Waits (d : Daemon) (id t : Nat) : Prop :=
  ∃ e, d.sessions[id]? = some e ∧ e.session.registered = true ∧ e.detachedAt = some t

/-- What a step does to the detach time of a session. -/
inductive Dated (d : Daemon) (l : DaemonLabel) (id : Nat) (e' : Entry) : Prop
  | same {e : Entry} (hget : d.sessions[id]? = some e) (ht : e'.detachedAt = e.detachedAt)
  | attached {i : Nat} {h : Handler} (hl : l = .handler i .attach) (hget : d.handlers[i]? = some h)
      (hid : h.pc.session? = some id) (ht : e'.detachedAt = none)
  | dropped {i : Nat} {h : Handler} (hl : l = .handler i .drop) (hget : d.handlers[i]? = some h)
      (hid : h.pc.guard? = some id) (ht : e'.detachedAt = some d.now)
  | started (hid : id = d.sessions.length) (ht : e'.detachedAt = some d.now)

theorem Step.dated (hs : Step timeout d l d') {e' : Entry} (hget : d'.sessions[id]? = some e') :
    d.Dated l id e' := by
  have hmodify : ∀ {j : Nat} {f : Entry → Entry}, d'.sessions = d.sessions.modify j f →
      (∀ e, (f e).detachedAt = e.detachedAt) → d.Dated l id e' := by
    intro j f hd hf
    rw [hd] at hget
    obtain ⟨e, he, ⟨-, rfl⟩ | ⟨-, rfl⟩⟩ := Table.of_modify hget
    · exact .same he (hf e)
    · exact .same he rfl
  cases hs with
  | @handler i h _ _ hh hs =>
    cases hs with
    | exec =>
      rcases Table.of_concat hget with hget | ⟨hid, rfl⟩
      · exact .same hget rfl
      · exact .started hid rfl
    | attach hfound =>
      obtain ⟨e, he, ⟨rfl, rfl⟩ | ⟨-, rfl⟩⟩ := Table.of_modify hget
      · exact .attached rfl hh hfound rfl
      · exact .same he rfl
    | drop hg =>
      obtain ⟨e, he, ⟨rfl, rfl⟩ | ⟨-, rfl⟩⟩ := Table.of_modify hget
      · by_cases hone : e.attached = 1
        · exact .dropped rfl hh hg (if_pos hone)
        · exact .same he (if_neg hone)
      · exact .same he rfl
    | serve => exact hmodify rfl fun _ => rfl
    | _ => exact .same hget rfl
  | task => exact hmodify rfl fun _ => rfl
  | sweepRemove => exact hmodify rfl fun _ => rfl
  | sweepAbort => exact hmodify rfl fun _ => rfl
  | ask => exact hmodify rfl fun _ => rfl
  | reply => exact hmodify rfl fun _ => rfl
  | _ => exact .same hget rfl

theorem Step.registered (hs : Step timeout d l d') {e e' : Entry}
    (hget : d.sessions[id]? = some e) (hget' : d'.sessions[id]? = some e')
    (hreg : e'.session.registered = true) : e.session.registered = true := by
  obtain ⟨e₀, he₀, hch⟩ | ⟨i, command, sp, resumable, forwardAgent, -, rfl, -⟩ := hs.entry hget'
  · rw [hget, Option.some.injEq] at he₀
    rw [he₀]
    exact (hch.registered hreg).1
  · exact absurd (Table.lt_of_getElem? hget) (lt_irrefl _)

theorem Step.waits (hs : Step timeout d l d') (h : d'.Waits id t) :
    t = d.now ∨ d.Waits id t := by
  obtain ⟨e', hget', hreg, ht⟩ := h
  cases hs.dated hget' with
  | same hget hsame => exact .inr ⟨_, hget, hs.registered hget hget' hreg, hsame ▸ ht⟩
  | attached _ _ _ hnone => cases hnone.symm.trans ht
  | dropped _ _ _ hnow => exact .inl (Option.some.inj (ht.symm.trans hnow))
  | started _ hnow => exact .inl (Option.some.inj (ht.symm.trans hnow))

/-- Only the sweep changes its list, and only the clock the time. -/
theorem Step.sweep (hs : Step timeout d l d') (hwait : ∀ time, l ≠ .wait time) :
    d'.now = d.now ∧ ((∃ expired, l = .sweepCollect expired) ∨ l = .sweepRemove ∨
      l = .sweepAbort ∨ d'.sweep = d.sweep ∧ d'.sweepRemoved = d.sweepRemoved) := by
  cases hs with
  | wait => exact absurd rfl (hwait _)
  | handler hget hs =>
    cases hs <;> exact ⟨rfl, .inr (.inr (.inr ⟨rfl, rfl⟩))⟩
  | sweepCollect => exact ⟨rfl, .inl ⟨_, rfl⟩⟩
  | sweepRemove => exact ⟨rfl, .inr (.inl rfl)⟩
  | sweepAbort => exact ⟨rfl, .inr (.inr (.inl rfl))⟩
  | _ => exact ⟨rfl, .inr (.inr (.inr ⟨rfl, rfl⟩))⟩

theorem sweepRemoved_of_sweepAbort (hs : d.step timeout .sweepAbort = some d') :
    d.sweepRemoved = true := by
  simp only [step] at hs
  split_ifs at hs with _ hrem
  · exact hrem
  · split at hs <;> cases hs

/-- The session has left the registry. -/
def Left (d : Daemon) (id : Nat) : Prop :=
  ∃ e, d.sessions[id]? = some e ∧ e.session.registered = false

theorem Left.not_waits (h : d.Left id) : ¬ d.Waits id t := by
  rintro ⟨e, hget, hreg, -⟩
  obtain ⟨e', hget', hno⟩ := h
  rw [hget, Option.some.injEq] at hget'
  rw [← hget', hreg] at hno
  cases hno

theorem Left.step (h : d.Left id) (hs : Step timeout d l d') : d'.Left id := by
  obtain ⟨e, hget, hno⟩ := h
  have hlt := (Table.lt_of_getElem? hget).trans_le hs.length_le
  refine ⟨d'.sessions[id], List.getElem?_eq_getElem hlt, (Bool.not_eq_true _).mp fun hreg => ?_⟩
  rw [hs.registered hget (List.getElem?_eq_getElem hlt) hreg] at hno
  cases hno

end Daemon

namespace TimedDaemon

variable {timeout lag : Nat} {x x' : TimedDaemon} {id t : Nat}

/-- Up to when the sweep may be where it is. -/
def limit (lag : Nat) (x : TimedDaemon) : Nat :=
  if x.daemon.sweep = [] then x.timer.deadline + lag else x.sweptAt + lag

def step (timeout lag : Nat) (x : TimedDaemon) : DaemonLabel → Option TimedDaemon
  | .wait time =>
    if x.daemon.now + time ≤ x.limit lag then
      (x.daemon.step timeout (.wait time)).map fun d => { x with daemon := d }
    else none
  | .sweepCollect expired =>
    if x.timer.due x.daemon.now then
      (x.daemon.step timeout (.sweepCollect expired)).map fun d =>
        ⟨d, x.timer.tick d.now, d.now⟩
    else none
  | l => (x.daemon.step timeout l).map fun d => { x with daemon := d }

/-- A daemon that has just started. The first tick of its interval is due at once. -/
def start (timeout : Nat) (restored : List Entry) : TimedDaemon :=
  ⟨.start restored, .start 0 (sweepPeriod timeout) .burst, 0⟩

def machine (timeout lag : Nat) : Machine TimedDaemon DaemonLabel where
  init x := ∃ restored : List Entry, (restored.map (·.token)).Nodup ∧
    (∀ e ∈ restored, e.Restored) ∧ x = start timeout restored
  step := step timeout lag

/-- Every step, with the guard it passed. -/
inductive Step (timeout lag : Nat) (x : TimedDaemon) : DaemonLabel → TimedDaemon → Prop
  | wait {time : Nat} (hle : x.daemon.now + time ≤ x.limit lag) :
      Step timeout lag x (.wait time)
        { x with daemon := { x.daemon with now := x.daemon.now + time } }
  | collect {expired : List Nat} (hdue : x.timer.due x.daemon.now = true)
      (hperm : expired.Perm (x.daemon.indices (·.expired x.daemon.now timeout))) :
      Step timeout lag x (.sweepCollect expired)
        ⟨{ x.daemon with sweep := expired, sweepRemoved := false }, x.timer.tick x.daemon.now,
          x.daemon.now⟩
  | other {l : DaemonLabel} {d : Daemon} (hwait : ∀ time, l ≠ .wait time)
      (hcollect : ∀ expired, l ≠ .sweepCollect expired) (hs : x.daemon.step timeout l = some d) :
      Step timeout lag x l { x with daemon := d }

theorem Step.of_step {l : DaemonLabel} (hs : x.step timeout lag l = some x') :
    (∃ d, x.daemon.step timeout l = some d ∧ x'.daemon = d) ∧ Step timeout lag x l x' := by
  cases l with
  | wait time =>
    simp only [step] at hs
    split_ifs at hs with hle
    obtain ⟨d, hd, rfl⟩ := Option.map_eq_some_iff.mp hs
    refine ⟨⟨d, hd, rfl⟩, ?_⟩
    obtain ⟨-, ⟨⟩⟩ := Daemon.Step.of_step hd
    exact .wait hle
  | sweepCollect expired =>
    simp only [step] at hs
    split_ifs at hs with hdue
    obtain ⟨d, hd, rfl⟩ := Option.map_eq_some_iff.mp hs
    refine ⟨⟨d, hd, rfl⟩, ?_⟩
    obtain ⟨-, hst⟩ := Daemon.Step.of_step hd
    cases hst with
    | sweepCollect _ hperm => exact .collect hdue hperm
  | _ =>
    obtain ⟨d, hd, rfl⟩ := Option.map_eq_some_iff.mp hs
    exact ⟨⟨d, hd, rfl⟩, .other nofun nofun hd⟩

/-- A run with the clock is a run of the daemon. -/
theorem under_daemon {C : Daemon → DaemonLabel → Prop}
    (h : (machine timeout lag).Under (fun x l => C x.daemon l) x) :
    (daemonMachine timeout).Under C x.daemon := by
  refine h.invariant (P := fun x => (daemonMachine timeout).Under C x.daemon) ?_ ?_
  · rintro x ⟨restored, hnodup, hrestored, rfl⟩
    exact .init ⟨restored, hnodup, hrestored, rfl⟩
  · intro x l x' hx hc hs
    obtain ⟨⟨d, hd, rfl⟩, -⟩ := Step.of_step hs
    exact hx.step hc hd

/-! ## The invariant -/

/-- The invariant. -/
structure Swept (timeout lag : Nat) (x : TimedDaemon) : Prop where
  period_eq : x.timer.period = sweepPeriod timeout
  behavior_eq : x.timer.behavior = .burst
  swept_le : x.sweptAt ≤ x.daemon.now
  deadline_le : x.timer.deadline ≤ x.sweptAt + sweepPeriod timeout
  now_le : x.daemon.now ≤ x.sweptAt + sweepPeriod timeout + lag
  busy : x.daemon.sweep ≠ [] → x.daemon.now ≤ x.sweptAt + lag
  listed : ∀ id ∈ x.daemon.sweep, id < x.daemon.sessions.length
  removed : x.daemon.sweepRemoved = true → ∀ id, x.daemon.sweep.head? = some id →
    x.daemon.Left id
  missed : ∀ id t, x.daemon.Waits id t → id ∉ x.daemon.sweep → x.sweptAt ≤ t + timeout
  taken : ∀ id t, x.daemon.Waits id t → id ∈ x.daemon.sweep →
    x.sweptAt ≤ t + timeout + sweepPeriod timeout + lag

theorem Swept.start (timeout lag : Nat) (restored : List Entry) :
    Swept timeout lag (start timeout restored) where
  period_eq := rfl
  behavior_eq := rfl
  swept_le := le_rfl
  deadline_le := Nat.zero_le _
  now_le := Nat.zero_le _
  busy _ := Nat.zero_le _
  listed _ h := by cases h
  removed h := by cases h
  missed _ _ _ _ := Nat.zero_le _
  taken _ _ _ _ := Nat.zero_le _

/-- The sweep and the clock are bounded by the last time something was collected. -/
theorem Swept.limit_le (h : Swept timeout lag x) :
    x.limit lag ≤ x.sweptAt + sweepPeriod timeout + lag := by
  have := h.deadline_le
  unfold limit
  split_ifs <;> omega

theorem Swept.wait (h : Swept timeout lag x) {time : Nat}
    (hle : x.daemon.now + time ≤ x.limit lag) :
    Swept timeout lag { x with daemon := { x.daemon with now := x.daemon.now + time } } :=
  { h with
    swept_le := h.swept_le.trans (Nat.le_add_right _ _)
    now_le := hle.trans h.limit_le
    busy := fun hne => by
      have hne : x.daemon.sweep ≠ [] := hne
      rwa [limit, if_neg hne] at hle }

/-- A sweep collects what has been detached for the timeout, and the last one was not long ago. -/
theorem Swept.collect (h : Swept timeout lag x) {expired : List Nat}
    (hno : x.daemon.sweep = []) (hdue : x.timer.due x.daemon.now = true)
    (hperm : expired.Perm (x.daemon.indices (·.expired x.daemon.now timeout))) :
    Swept timeout lag
      ⟨{ x.daemon with sweep := expired, sweepRemoved := false }, x.timer.tick x.daemon.now,
        x.daemon.now⟩ where
  period_eq := h.period_eq
  behavior_eq := h.behavior_eq
  swept_le := le_rfl
  deadline_le := h.period_eq ▸ TickInterval.deadline_tick_le hdue
  now_le := by
    show x.daemon.now ≤ x.daemon.now + sweepPeriod timeout + lag
    omega
  busy _ := Nat.le_add_right _ _
  listed id hid := List.mem_range.mp (List.mem_of_mem_filter (hperm.mem_iff.mp hid))
  removed hrem := by cases hrem
  missed id t hw hid := by
    obtain ⟨e, hget, hreg, ht⟩ := hw
    by_contra hlate
    refine hid (hperm.mem_iff.mpr ?_)
    have hlt : timeout ≤ x.daemon.now - t := by
      have hlate : ¬ x.daemon.now ≤ t + timeout := hlate
      omega
    have hexp : e.expired x.daemon.now timeout = true := by
      simp [Entry.expired, hreg, ht, hlt]
    have hget : x.daemon.sessions[id]? = some e := hget
    exact List.mem_filter.mpr ⟨List.mem_range.mpr (Table.lt_of_getElem? hget), by
      rw [hget]
      exact hexp⟩
  taken id t hw _ := by
    have hmissed := h.missed id t hw (by rw [hno]; exact List.not_mem_nil)
    have hnow := h.now_le
    show x.daemon.now ≤ t + timeout + sweepPeriod timeout + lag
    omega

/-- What any other step does to the sweep: it goes on with the first session on its list, or leaves
the list alone. -/
theorem Swept.onward (h : Swept timeout lag x) {l : DaemonLabel} {d : Daemon}
    (hwait : ∀ time, l ≠ .wait time) (hcollect : ∀ expired, l ≠ .sweepCollect expired)
    (hs : x.daemon.step timeout l = some d) :
    (∀ id ∈ d.sweep, id ∈ x.daemon.sweep) ∧
    (d.sweepRemoved = true → ∀ id, d.sweep.head? = some id → d.Left id) ∧
    ∀ id t, d.Waits id t → id ∈ x.daemon.sweep → id ∈ d.sweep ∨ t = x.daemon.now := by
  obtain ⟨-, hst⟩ := Daemon.Step.of_step hs
  rcases (hst.sweep hwait).2 with ⟨expired, rfl⟩ | rfl | rfl | ⟨hsw, hrem⟩
  · exact absurd rfl (hcollect expired)
  · cases hst with
    | @sweepRemove first rest hsw =>
      refine ⟨fun _ hid => hid, fun _ id hid => ?_, fun _ _ _ hid => .inl hid⟩
      have hid : x.daemon.sweep.head? = some id := hid
      rw [hsw, List.head?_cons, Option.some.injEq] at hid
      subst hid
      have hlt := h.listed first (by rw [hsw]; exact List.mem_cons_self)
      exact ⟨_, Table.modify_self (List.getElem?_eq_getElem hlt), rfl⟩
  · have hrem := Daemon.sweepRemoved_of_sweepAbort hs
    have hwaits := fun id t (hw : d.Waits id t) => hst.waits hw
    cases hst with
    | @sweepAbort first rest hsw =>
      refine ⟨fun id hid => ?_, ?_, fun id t hw hid => ?_⟩
      · rw [hsw]
        exact List.mem_cons_of_mem _ hid
      · intro hr
        cases hr
      · rw [hsw] at hid
        rcases List.mem_cons.mp hid with rfl | hid
        · have hleft := h.removed hrem id (by rw [hsw]; rfl)
          exact .inr ((hwaits id t hw).resolve_right hleft.not_waits)
        · exact .inl hid
  · rw [hsw, hrem]
    exact ⟨fun _ hid => hid, fun hr id hid => (h.removed hr id hid).step hst,
      fun _ _ _ hid => .inl hid⟩

/-- Any other step: what waits after it waited before it, or has just begun to. -/
theorem Swept.other (h : Swept timeout lag x) {l : DaemonLabel} {d : Daemon}
    (hwait : ∀ time, l ≠ .wait time) (hcollect : ∀ expired, l ≠ .sweepCollect expired)
    (hs : x.daemon.step timeout l = some d) : Swept timeout lag { x with daemon := d } := by
  obtain ⟨hsub, hremoved, hkept⟩ := h.onward hwait hcollect hs
  obtain ⟨-, hst⟩ := Daemon.Step.of_step hs
  have hnow := (hst.sweep hwait).1
  have hswept := h.swept_le
  refine ⟨h.period_eq, h.behavior_eq, hnow ▸ h.swept_le, h.deadline_le, hnow ▸ h.now_le, ?_,
    ?_, hremoved, fun id t hw hid => ?_, fun id t hw hid => ?_⟩
  · intro hne
    obtain ⟨id, hid⟩ := List.exists_mem_of_ne_nil _ hne
    exact hnow ▸ h.busy (List.ne_nil_of_mem (hsub id hid))
  · exact fun id hid => (h.listed id (hsub id hid)).trans_le hst.length_le
  · show x.sweptAt ≤ t + timeout
    rcases hst.waits hw with rfl | hw'
    · omega
    · by_cases hid' : id ∈ x.daemon.sweep
      · have := (hkept id t hw hid').resolve_left hid
        omega
      · exact h.missed id t hw' hid'
  · show x.sweptAt ≤ t + timeout + sweepPeriod timeout + lag
    rcases hst.waits hw with rfl | hw'
    · omega
    · exact h.taken id t hw' (hsub id hid)

theorem Swept.step (h : Swept timeout lag x) {l : DaemonLabel}
    (hs : x.step timeout lag l = some x') : Swept timeout lag x' := by
  obtain ⟨⟨d, hd, -⟩, hst⟩ := Step.of_step hs
  cases hst with
  | wait hle => exact h.wait hle
  | collect hdue hperm =>
    obtain ⟨-, hcollect⟩ := Daemon.Step.of_step hd
    cases hcollect with
    | sweepCollect hno => exact h.collect hno hdue hperm
  | other hwait hcollect hother => exact h.other hwait hcollect hother

theorem Swept.of_reachable (h : (machine timeout lag).Reachable x) : Swept timeout lag x := by
  refine h.invariant (P := Swept timeout lag) ?_ fun _ _ _ hx _ hs => hx.step hs
  rintro x ⟨restored, -, -, rfl⟩
  exact .start timeout lag restored

/-- What the sweep has on its list was detached for the timeout when it was collected. -/
def Aged (timeout : Nat) (x : TimedDaemon) : Prop :=
  ∀ id ∈ x.daemon.sweep, ∃ e t, x.daemon.sessions[id]? = some e ∧ e.detachedAt = some t ∧
    timeout ≤ x.sweptAt - t

/-- A session on the list keeps its detach time: no guard is taken on it, and none is left to be
dropped. -/
theorem Aged.other (h : Aged timeout x) (hsp : Daemon.Spares x.daemon) (hsw : Swept timeout lag x)
    {l : DaemonLabel} {d : Daemon} (hcond : x.daemon.attachesUncollected l = true)
    (hwait : ∀ time, l ≠ .wait time) (hcollect : ∀ expired, l ≠ .sweepCollect expired)
    (hs : x.daemon.step timeout l = some d) : Aged timeout { x with daemon := d } := by
  intro id hid
  have hid := (hsw.onward hwait hcollect hs).1 id hid
  obtain ⟨-, hst⟩ := Daemon.Step.of_step hs
  obtain ⟨e, t, hget, ht, hle⟩ := h id hid
  have hlt := Table.lt_of_getElem? hget
  have hget' := List.getElem?_eq_getElem (hlt.trans_le hst.length_le)
  refine ⟨_, t, hget', ?_, hle⟩
  cases hst.dated hget' with
  | same hsame heq =>
    rw [hget, Option.some.injEq] at hsame
    rw [heq, ← hsame, ht]
  | attached hl hhandler hsession =>
    subst hl
    have huncollected : id ∉ x.daemon.sweep := by
      simpa [Daemon.attachesUncollected, hhandler, hsession] using hcond
    exact absurd hid huncollected
  | dropped _ hhandler hguard =>
    have hzero := Daemon.guards_eq_zero.mp (hsp.collected id hid)
    exact absurd hguard (hzero _ (List.mem_of_getElem? hhandler))
  | started hnew => exact absurd hlt (hnew ▸ lt_irrefl _)

/-- The clock or the sweep can go on. -/
def Moves (timeout lag : Nat) (x : TimedDaemon) : Prop :=
  ∃ l, (l = .wait 1 ∨ (∃ expired, l = .sweepCollect expired) ∨ l = .sweepRemove ∨
    l = .sweepAbort) ∧ (x.step timeout lag l).isSome = true

theorem moves (timeout lag : Nat) (x : TimedDaemon) (hrun : x.daemon.exited = false) :
    x.Moves timeout lag := by
  cases hsw : x.daemon.sweep with
  | nil =>
    by_cases hle : x.daemon.now + 1 ≤ x.timer.deadline + lag
    · refine ⟨.wait 1, .inl rfl, ?_⟩
      simp [step, limit, hsw, hle, Daemon.step, hrun]
    · have hdue : x.timer.due x.daemon.now = true := TickInterval.due_iff.mpr (by omega)
      refine ⟨_, .inr (.inl ⟨x.daemon.indices (·.expired x.daemon.now timeout), rfl⟩), ?_⟩
      have hperm := List.isPerm_iff.mpr
        (List.Perm.refl (x.daemon.indices (·.expired x.daemon.now timeout)))
      simp [step, hdue, Daemon.step, hrun, hsw, hperm]
  | cons id rest =>
    by_cases hrem : x.daemon.sweepRemoved = true
    · refine ⟨.sweepAbort, .inr (.inr (.inr rfl)), ?_⟩
      simp [step, Daemon.step, hrun, hsw, hrem]
    · refine ⟨.sweepRemove, .inr (.inr (.inl rfl)), ?_⟩
      simp [step, Daemon.step, hrun, hsw, hrem]

end TimedDaemon

end HerdrEternal
