import HerdrEternal.Lib.Machine

/-!
# Refinement between machines

`M` *refines* `N` when an abstract state can be read off every reachable state of `M`, and every
step of `M` stands for a list of labels of `N`, often an empty one. Steps may be restricted by a
condition, as in `Under`.

`Refines.run`: a run of `M` stands for a run of `N`, whose labels are those of its steps in order.
-/

universe u v u' v'

namespace Machine

variable {σ : Type u} {ℓ : Type v} {τ : Type u'} {κ : Type v'} {M : Machine σ ℓ} {N : Machine τ κ}
  {C : σ → ℓ → Prop} {f : σ → τ} {acts : σ → ℓ → List κ} {s s' : σ} {t t' t'' : τ}

theorem run_append {ks ks' : List κ} (h : N.run t ks = some t') (h' : N.run t' ks' = some t'') :
    N.run t (ks ++ ks') = some t'' := by
  induction ks generalizing t with
  | nil =>
    cases h
    exact h'
  | cons k ks ih =>
    obtain ⟨u, hu, hrun⟩ := Option.bind_eq_some_iff.mp h
    exact Option.bind_eq_some_iff.mpr ⟨u, hu, ih hrun⟩

/-- The abstract labels of a run, as long as its steps are enabled. -/
def acted (M : Machine σ ℓ) (acts : σ → ℓ → List κ) : σ → List ℓ → List κ
  | _, [] => []
  | s, l :: ls => acts s l ++ ((M.step s l).map fun s' => acted M acts s' ls).getD []

/-- Every step of `M` that satisfies `C` stands for the labels `acts` of `N`. -/
structure Refines (M : Machine σ ℓ) (C : σ → ℓ → Prop) (N : Machine τ κ) (f : σ → τ)
    (acts : σ → ℓ → List κ) : Prop where
  init : ∀ s, M.init s → N.init (f s)
  step : ∀ s l s', M.Under C s → C s l → M.step s l = some s' →
    N.run (f s) (acts s l) = some (f s')

/-- **Runs refine runs.** -/
theorem Refines.run {ls : List ℓ} (h : Refines M C N f acts) (hs : M.Under C s)
    (hC : ∀ s, ∀ l ∈ ls, C s l) (hr : M.run s ls = some s') :
    N.run (f s) (M.acted acts s ls) = some (f s') := by
  induction ls generalizing s with
  | nil =>
    cases hr
    rfl
  | cons l ls ih =>
    obtain ⟨t, ht, hr⟩ := Option.bind_eq_some_iff.mp hr
    have hl := hC s l (by simp)
    rw [acted, ht, Option.map_some, Option.getD_some]
    exact run_append (h.step s l t hs hl ht)
      (ih (hs.step hl ht) (fun s l' hl' => hC s l' (by simp [hl'])) hr)

end Machine
