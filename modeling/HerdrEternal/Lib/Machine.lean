import Mathlib.Data.List.Basic
import Mathlib.Order.Basic

/-!
# Machines and their reachable states

A *machine* has a set of starting states and a partial step: in a given state a label is
either disabled (`none`) or leads to one next state. All nondeterminism (which task runs, what
a read returns, whether a send fails) is in the choice of labels, so a run is a list of labels
and can be evaluated.

* `Under C`: the states reached by runs whose every step satisfies the condition `C`, which
  speaks of the state before the step and of its label. `Reachable` is `Under` without a
  condition.
* `Under.invariant`: the induction rule every safety proof goes through.
* `startAt s`: the machine whose runs are the ways on from `s`, and `Under.le_of_step`, the rule for
  what only grows along the way.
* `CanReach P`: some way on leads to a state with `P`; `CanReach.of_step` goes one step towards it.
* `run` executes a list of labels, and `runIf` one whose steps pass a check; `reachable_of_run` and
  `under_of_runIf` turn an evaluated run into a reachable state.
* `traced`: the machine that keeps the labels of its run, for conditions and invariants that speak
  of what has happened.
-/

universe u v

/-- Where runs start, and what each label does in each state. -/
structure Machine (σ : Type u) (ℓ : Type v) where
  init : σ → Prop
  step : σ → ℓ → Option σ

namespace Machine

variable {σ : Type u} {ℓ : Type v} {M : Machine σ ℓ} {C : σ → ℓ → Prop} {s s' : σ}

/-- The states reached by runs whose steps all satisfy `C`. -/
inductive Under (M : Machine σ ℓ) (C : σ → ℓ → Prop) : σ → Prop
  | init {s : σ} : M.init s → Under M C s
  | step {s s' : σ} {l : ℓ} : Under M C s → C s l → M.step s l = some s' → Under M C s'

/-- The states reached by some run. -/
def Reachable (M : Machine σ ℓ) (s : σ) : Prop := M.Under (fun _ _ => True) s

/-- **The invariant rule.** What holds initially and is kept by every allowed step holds in
every state reached. -/
theorem Under.invariant {P : σ → Prop} (h : M.Under C s) (h₀ : ∀ s, M.init s → P s)
    (hs : ∀ s l s', P s → C s l → M.step s l = some s' → P s') : P s := by
  induction h with
  | init hi => exact h₀ _ hi
  | step _ hc hst ih => exact hs _ _ _ ih hc hst

theorem Under.reachable (h : M.Under C s) : M.Reachable s := by
  induction h with
  | init hi => exact .init hi
  | step _ _ hst ih => exact ih.step trivial hst

theorem Under.mono {C' : σ → ℓ → Prop} (h : M.Under C s) (hc : ∀ s l, C s l → C' s l) :
    M.Under C' s := by
  induction h with
  | init hi => exact .init hi
  | step _ hl hst ih => exact ih.step (hc _ _ hl) hst

/-- The machine that goes on from `s`. -/
def startAt (M : Machine σ ℓ) (s : σ) : Machine σ ℓ := { M with init := (· = s) }

theorem Under.trans (h : M.Under C s) (h' : (M.startAt s).Under C s') : M.Under C s' := by
  induction h' with
  | init heq => exact heq ▸ h
  | step _ hc hst ih => exact ih.step hc hst

/-- **The monotonicity rule.** What no allowed step decreases is not decreased on the way. -/
theorem Under.le_of_step {α : Type*} [Preorder α] {f : σ → α} (h : M.Under C s)
    (h' : (M.startAt s).Under C s')
    (hs : ∀ s l s', M.Under C s → C s l → M.step s l = some s' → f s ≤ f s') : f s ≤ f s' := by
  induction h' with
  | init heq => rw [heq]
  | step hunder hc hst ih => exact ih.trans (hs _ _ _ (h.trans hunder) hc hst)

/-- Execute a list of labels; `none` when one of them is disabled where it is due. -/
def run (M : Machine σ ℓ) : σ → List ℓ → Option σ
  | s, [] => some s
  | s, l :: ls => (M.step s l).bind fun s' => M.run s' ls

theorem run_cons {l : ℓ} {ls : List ℓ} {t : σ} (hs : M.step s l = some t)
    (hr : M.run t ls = some s') : M.run s (l :: ls) = some s' := by
  rw [run, hs]
  exact hr

theorem under_of_run {ls : List ℓ} (h : M.Under C s) (hC : ∀ s, ∀ l ∈ ls, C s l)
    (hr : M.run s ls = some s') : M.Under C s' := by
  induction ls generalizing s with
  | nil => cases hr; exact h
  | cons l ls ih =>
    obtain ⟨t, ht, hr⟩ := Option.bind_eq_some_iff.mp hr
    exact ih (h.step (hC s l (by simp)) ht) (fun s l' hl' => hC s l' (by simp [hl'])) hr

theorem run_startAt (t : σ) (ls : List ℓ) : (M.startAt s).run t ls = M.run t ls := by
  induction ls generalizing t with
  | nil => rfl
  | cons l ls ih =>
    simp only [run, ih]
    rfl

theorem reachable_of_run {ls : List ℓ} (h : M.init s) (hr : M.run s ls = some s') :
    M.Reachable s' :=
  under_of_run (.init h) (fun _ _ _ => trivial) hr

/-- Execute a list of labels, as long as each one passes a check in the state where it is due. -/
def runIf (M : Machine σ ℓ) (c : σ → ℓ → Bool) : σ → List ℓ → Option σ
  | s, [] => some s
  | s, l :: ls => if c s l then (M.step s l).bind fun s' => M.runIf c s' ls else none

theorem under_of_runIf {c : σ → ℓ → Bool} {ls : List ℓ} (h : M.Under (fun s l => c s l = true) s)
    (hr : M.runIf c s ls = some s') : M.Under (fun s l => c s l = true) s' := by
  induction ls generalizing s with
  | nil => cases hr; exact h
  | cons l ls ih =>
    rw [runIf] at hr
    split_ifs at hr with hc
    obtain ⟨t, ht, hr⟩ := Option.bind_eq_some_iff.mp hr
    exact ih (h.step hc ht) hr

theorem runIf_startAt {c : σ → ℓ → Bool} (t : σ) (ls : List ℓ) :
    (M.startAt s).runIf c t ls = M.runIf c t ls := by
  induction ls generalizing t with
  | nil => rfl
  | cons l ls ih =>
    simp only [runIf, ih]
    rfl

/-- An evaluated way on. -/
theorem reachable_startAt {ls : List ℓ} (hr : M.run s ls = some s') :
    (M.startAt s).Reachable s' :=
  reachable_of_run rfl ((run_startAt s ls).trans hr)

/-- Some way on from `s` leads to a state with `P`. -/
def CanReach (M : Machine σ ℓ) (P : σ → Prop) (s : σ) : Prop :=
  ∃ s', (M.startAt s).Reachable s' ∧ P s'

theorem CanReach.now {P : σ → Prop} (h : P s) : M.CanReach P s := ⟨s, .init rfl, h⟩

/-- **The progress rule.** One step towards `P`. -/
theorem CanReach.of_step {P : σ → Prop} {l : ℓ} (hs : M.step s l = some s')
    (h : M.CanReach P s') : M.CanReach P s := by
  obtain ⟨t, ht, hp⟩ := h
  have hfirst : (M.startAt s).Reachable s' := .step (.init rfl) trivial hs
  exact ⟨t, hfirst.trans ht, hp⟩

theorem CanReach.mono {P Q : σ → Prop} (h : M.CanReach P s) (hpq : ∀ s, P s → Q s) :
    M.CanReach Q s := by
  obtain ⟨t, ht, hp⟩ := h
  exact ⟨t, ht, hpq t hp⟩

theorem CanReach.trans {P Q : σ → Prop} (h : M.CanReach P s)
    (hq : ∀ s', (M.startAt s).Reachable s' → P s' → M.CanReach Q s') : M.CanReach Q s := by
  obtain ⟨t, ht, hp⟩ := h
  obtain ⟨u, hu, hq⟩ := hq t ht hp
  exact ⟨u, ht.trans hu, hq⟩

/-- The machine with the labels of its run. -/
def traced (M : Machine σ ℓ) : Machine (List ℓ × σ) ℓ where
  init x := x.1 = [] ∧ M.init x.2
  step x l := (M.step x.2 l).map fun s => (x.1 ++ [l], s)

theorem traced_run {ks ls : List ℓ} (hr : M.run s ls = some s') :
    M.traced.run (ks, s) ls = some (ks ++ ls, s') := by
  induction ls generalizing ks s with
  | nil =>
    cases hr
    rw [List.append_nil]
    rfl
  | cons l ls ih =>
    obtain ⟨t, ht, hr⟩ := Option.bind_eq_some_iff.mp hr
    have hstep : M.traced.step (ks, s) l = some (ks ++ [l], t) := by
      show (M.step s l).map _ = _
      rw [ht]
      rfl
    rw [run_cons hstep (ih hr), List.append_assoc]
    rfl

theorem under_startAt {c : σ → ℓ → Bool} {ls : List ℓ} (hr : M.runIf c s ls = some s') :
    (M.startAt s).Under (fun s l => c s l = true) s' :=
  under_of_runIf (.init rfl) ((runIf_startAt s ls).trans hr)

end Machine
