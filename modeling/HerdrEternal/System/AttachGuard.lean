import HerdrEternal.Lib.Table
import HerdrEternal.Server.Daemon

/-!
# Counting the attached connections

A session counts its connections in an atomic, and keeps the time of the last detach under a lock of
its own. An `AttachGuard` changes both in two steps: `new` adds one and then clears the time, `drop`
subtracts one and then, if the count was one, sets the time. The guards of one session are made and
dropped by tasks that run concurrently, so their steps interleave.

The counter always counts the guards (`attached_eq`). The time is right if no dropped guard sets it
while somebody is attached again and has cleared it already (`stampsDetached`): then, whenever no
guard is between its steps, there is a detach time exactly if nobody is attached. Otherwise a
session in use keeps the detach time of the connection before (`stale_of_stamp`).
-/

namespace HerdrEternal

/-- Where an `AttachGuard` is. -/
inductive GuardPc where
  /-- In `new`, before the detach time is cleared. -/
  | counted
  | live
  /-- In `drop`, where the count was one, before the detach time is set. -/
  | leaving
  | dropped
  deriving DecidableEq

/-- The bookkeeping of one session, and its guards so far. -/
structure Guards where
  attached : Nat
  detachedAt : Option Nat
  guards : List GuardPc
  now : Nat
  deriving DecidableEq

inductive GuardLabel where
  /-- `fetch_add` in `new`. -/
  | add
  /-- `detached_at = None` in `new`. -/
  | clear (i : Nat)
  /-- `fetch_sub` in `drop`. -/
  | sub (i : Nat)
  /-- `detached_at = Some(now)` in `drop`. -/
  | stamp (i : Nat)
  | wait (ms : Nat)
  deriving DecidableEq

namespace Guards

def setGuard (x : Guards) (i : Nat) (pc : GuardPc) : Guards :=
  { x with guards := x.guards.set i pc }

def step (x : Guards) : GuardLabel → Option Guards
  | .add => some { x with attached := x.attached + 1, guards := x.guards ++ [.counted] }
  | .clear i =>
    if x.guards[i]? = some .counted then some { x.setGuard i .live with detachedAt := none }
    else none
  | .sub i =>
    if x.guards[i]? = some .live then
      some { x.setGuard i (if x.attached = 1 then .leaving else .dropped) with
        attached := x.attached - 1 }
    else none
  | .stamp i =>
    if x.guards[i]? = some .leaving then
      some { x.setGuard i .dropped with detachedAt := some x.now }
    else none
  | .wait ms => some { x with now := x.now + ms }

/-- A session as it is started or restored. -/
def start (now : Nat) : Guards := ⟨0, some now, [], now⟩

def machine : Machine Guards GuardLabel where
  init x := ∃ now, x = start now
  step := step

/-! ## The property -/

/-- No guard is between its two steps. -/
def quiet (x : Guards) : Bool := x.guards.all fun pc => pc = .live ∨ pc = .dropped

/-- The guards that hold the session as attached. -/
def liveGuards (x : Guards) : Nat := x.guards.countP fun pc => pc = .live

/-- With no guard between its steps, there is no detach time exactly if somebody is attached, and
the counter is the number of live guards. -/
def Bookkept (x : Guards) : Prop :=
  x.quiet = true → (x.detachedAt = none ↔ 0 < x.attached) ∧ x.attached = x.liveGuards

/-- Where a dropped guard sets the detach time, nobody is attached, or somebody has yet to clear
it. -/
def stampsDetached (x : Guards) : GuardLabel → Bool
  | .stamp _ => x.attached = 0 || x.guards.contains .counted
  | _ => true

/-! ## What a step can do -/

variable {x x' : Guards}

inductive Step (x : Guards) : GuardLabel → Guards → Prop
  | add : Step x .add { x with attached := x.attached + 1, guards := x.guards ++ [.counted] }
  | clear {i : Nat} (hi : x.guards[i]? = some .counted) :
      Step x (.clear i) { x.setGuard i .live with detachedAt := none }
  | subLast {i : Nat} (hi : x.guards[i]? = some .live) (hone : x.attached = 1) :
      Step x (.sub i) { x.setGuard i .leaving with attached := 0 }
  | sub {i : Nat} (hi : x.guards[i]? = some .live) (hone : x.attached ≠ 1) :
      Step x (.sub i) { x.setGuard i .dropped with attached := x.attached - 1 }
  | stamp {i : Nat} (hi : x.guards[i]? = some .leaving) :
      Step x (.stamp i) { x.setGuard i .dropped with detachedAt := some x.now }
  | wait {ms : Nat} : Step x (.wait ms) { x with now := x.now + ms }

theorem Step.of_step {l : GuardLabel} (hs : x.step l = some x') : Step x l x' := by
  cases l with
  | add =>
    cases hs
    exact .add
  | clear i =>
    simp only [step] at hs
    split_ifs at hs with hi
    cases hs
    exact .clear hi
  | sub i =>
    simp only [step] at hs
    split_ifs at hs with hi hone
    · cases hs
      rw [hone]
      exact .subLast hi hone
    · cases hs
      exact .sub hi hone
  | stamp i =>
    simp only [step] at hs
    split_ifs at hs with hi
    cases hs
    exact .stamp hi
  | wait ms =>
    cases hs
    exact .wait

/-! ## The counter -/

/-- Guards that are counted: the live ones, and those still being made. -/
def counting (pc : GuardPc) : Bool :=
  match pc with
  | .counted | .live => true
  | .leaving | .dropped => false

theorem attached_step {l : GuardLabel} (h : x.attached = x.guards.countP counting)
    (hs : x.step l = some x') : x'.attached = x'.guards.countP counting := by
  cases Step.of_step hs with
  | add => simp [h, counting, List.countP_append]
  | clear hi =>
    have hcount := Table.countP_set_of_eq (a := GuardPc.live) (p := counting) hi rfl
    exact h.trans hcount.symm
  | subLast hi hone =>
    have := Table.countP_set_add (a := GuardPc.leaving) (p := counting) hi
    simp only [setGuard, counting, Bool.toNat_true, Bool.toNat_false] at this ⊢
    omega
  | sub hi hone =>
    have := Table.countP_set_add (a := GuardPc.dropped) (p := counting) hi
    simp only [setGuard, counting, Bool.toNat_true, Bool.toNat_false] at this ⊢
    omega
  | stamp hi =>
    have hcount := Table.countP_set_of_eq (a := GuardPc.dropped) (p := counting) hi rfl
    exact h.trans hcount.symm
  | wait => exact h

theorem attached_eq {C : Guards → GuardLabel → Prop} (h : machine.Under C x) :
    x.attached = x.guards.countP counting := by
  refine h.invariant (P := fun x => x.attached = x.guards.countP counting) ?_ ?_
  · rintro _ ⟨now, rfl⟩
    rfl
  · exact fun _ _ _ h _ hs => attached_step h hs

/-! ## The detach time -/

/-- The detach time is right, or a guard is about to put it right. -/
structure Timed (x : Guards) : Prop where
  attached : 0 < x.attached → x.detachedAt = none ∨ GuardPc.counted ∈ x.guards
  detached : x.attached = 0 → x.detachedAt ≠ none ∨ GuardPc.leaving ∈ x.guards

theorem timed_step {l : GuardLabel} (hcount : x.attached = x.guards.countP counting) (h : x.Timed)
    (hc : x.stampsDetached l = true) (hs : x.step l = some x') : x'.Timed := by
  cases Step.of_step hs with
  | add => exact ⟨fun _ => .inr (by simp), fun h0 => (by simp at h0)⟩
  | @clear i hi =>
    refine ⟨fun _ => .inl rfl, fun h0 => absurd h0 ?_⟩
    show x.attached ≠ 0
    rw [hcount]
    exact (List.countP_pos_iff.mpr ⟨_, List.mem_of_getElem? hi, rfl⟩).ne'
  | subLast hi hone =>
    refine ⟨fun h0 => absurd h0 (by simp), fun _ => .inr ?_⟩
    exact List.mem_of_getElem? (Table.set_self hi)
  | sub hi hone =>
    have hpos : 0 < x.attached := by
      rw [hcount]
      exact List.countP_pos_iff.mpr ⟨_, List.mem_of_getElem? hi, rfl⟩
    refine ⟨fun _ => ?_, fun h0 => ?_⟩
    · exact (h.attached hpos).imp_right fun hmem => Table.mem_set_of_ne hi hmem (by simp)
    · have h0 : x.attached - 1 = 0 := h0
      omega
  | stamp hi =>
    simp only [stampsDetached, Bool.or_eq_true, decide_eq_true_eq, List.contains_iff_mem] at hc
    refine ⟨fun hpos => .inr ?_, fun _ => .inl (by simp)⟩
    have hmem := hc.resolve_left (by have hpos : 0 < x.attached := hpos; omega)
    exact Table.mem_set_of_ne hi hmem (by simp)
  | wait => exact ⟨h.attached, h.detached⟩

theorem timed_under (h : machine.Under (fun x l => x.stampsDetached l = true) x) : x.Timed := by
  have hboth : x.attached = x.guards.countP counting ∧ x.Timed := by
    refine h.invariant (P := fun x => x.attached = x.guards.countP counting ∧ x.Timed) ?_ ?_
    · rintro _ ⟨now, rfl⟩
      exact ⟨rfl, ⟨fun h0 => absurd h0 (by simp [start]), fun _ => .inl (by simp [start])⟩⟩
    · exact fun _ _ _ ⟨hcount, h⟩ hc hs => ⟨attached_step hcount hs, timed_step hcount h hc hs⟩
  exact hboth.2

theorem quiet_iff : x.quiet = true ↔ ∀ pc ∈ x.guards, pc = .live ∨ pc = .dropped := by
  simp [quiet]

theorem attached_of_quiet (hcount : x.attached = x.guards.countP counting)
    (hq : x.quiet = true) : x.attached = x.liveGuards := by
  rw [hcount, liveGuards]
  refine List.countP_congr fun pc hpc => ?_
  rcases quiet_iff.mp hq pc hpc with rfl | rfl <;> simp [counting]

/-- **The bookkeeping is consistent** in runs that set the detach time of detached sessions only. -/
theorem bookkept_under (h : machine.Under (fun x l => x.stampsDetached l = true) x) :
    x.Bookkept := by
  intro hq
  have htimed := timed_under h
  have hno : ∀ pc, pc ≠ .live → pc ≠ .dropped → pc ∉ x.guards := fun pc hl hd hmem =>
    (quiet_iff.mp hq pc hmem).elim hl hd
  refine ⟨⟨fun hnone => ?_, fun hpos => ?_⟩, attached_of_quiet (attached_eq h) hq⟩
  · by_contra h0
    rcases htimed.detached (by omega) with hsome | hmem
    · exact hsome hnone
    · exact hno _ (by simp) (by simp) hmem
  · exact (htimed.attached hpos).resolve_right (hno _ (by simp) (by simp))

/-- A step that the condition leaves out sets the detach time of a session in use, for good unless
another guard is still to set or clear it. -/
theorem stale_of_stamp {i : Nat} (hc : x.stampsDetached (.stamp i) = false)
    (hs : x.step (.stamp i) = some x') :
    0 < x'.attached ∧ x'.detachedAt = some x.now ∧ (x'.quiet = true → ¬ x'.Bookkept) := by
  simp only [stampsDetached, Bool.or_eq_false_iff, decide_eq_false_iff_not] at hc
  cases Step.of_step hs with
  | stamp =>
    have hpos : 0 < x.attached := Nat.pos_of_ne_zero hc.1
    refine ⟨hpos, rfl, fun hq h => ?_⟩
    cases (h hq).1.mpr hpos

/-! ## The guards of the daemon -/

/-- Without interleaving, the two steps of `new` are what the daemon does in one. -/
theorem new_eq_attach (x : Guards) (e : Entry) (ha : e.attached = x.attached) :
    (machine.run x [.add, .clear x.guards.length]).map (fun y => (y.attached, y.detachedAt)) =
      some (e.attach.attached, e.attach.detachedAt) := by
  simp [machine, Machine.run, step, setGuard, Entry.attach, ha]

/-- The same for `drop`, where the second step is due if the count was one. -/
theorem drop_eq_drop (x : Guards) (e : Entry) {i : Nat} (hi : x.guards[i]? = some .live)
    (ha : e.attached = x.attached) (hd : e.detachedAt = x.detachedAt) :
    (machine.run x (.sub i :: if x.attached = 1 then [.stamp i] else [])).map
        (fun y => (y.attached, y.detachedAt)) =
      some ((e.drop x.now).attached, (e.drop x.now).detachedAt) := by
  have hset : (x.guards.set i .leaving)[i]? = some .leaving := Table.set_self hi
  by_cases hone : x.attached = 1
  · simp [machine, Machine.run, step, setGuard, Entry.drop, ha, hi, hone, hset]
  · simp [machine, Machine.run, step, setGuard, Entry.drop, ha, hd, hi, hone]

/-! ## Runs -/

/-- A connection resumes a session and overlaps with the one before. -/
def overlapRun : List GuardLabel :=
  [.add, .clear 0, .add, .sub 0, .clear 1, .sub 1, .add, .wait 5, .stamp 1, .clear 2]

def overlapped : Guards :=
  (machine.runIf (fun x l => x.stampsDetached l) (start 0) overlapRun).get (by decide)

theorem overlapped_bookkept :
    overlapped.quiet = true ∧ overlapped.attached = 1 ∧ overlapped.detachedAt = none ∧
    overlapped.Bookkept := by
  have hunder : machine.Under (fun x l => x.stampsDetached l = true) overlapped :=
    Machine.under_of_runIf (.init ⟨0, rfl⟩) (Option.some_get _).symm
  exact ⟨by decide, by decide, by decide, bookkept_under hunder⟩

/-- A connection resumes the session between the two steps of the drop before it. -/
def staleDetach : Guards :=
  (machine.run (start 0) [.add, .clear 0, .sub 0, .add, .clear 1, .stamp 0]).get (by decide)

/-- The session is attached and has a detach time, which the sweep goes by. -/
theorem stale_detach_time :
    machine.Reachable staleDetach ∧ staleDetach.guards = [.dropped, .live] ∧
    staleDetach.attached = 1 ∧ staleDetach.detachedAt = some 0 ∧ ¬ staleDetach.Bookkept := by
  refine ⟨?_, by decide, by decide, by decide, fun h => ?_⟩
  · exact Machine.reachable_of_run ⟨0, rfl⟩ (Option.some_get _).symm
  · exact absurd ((h (by decide)).1.mpr (by decide)) (by decide)

end Guards

end HerdrEternal
