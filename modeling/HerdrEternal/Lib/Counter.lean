import Mathlib.Algebra.Group.Nat.Defs
import Mathlib.Data.List.Pairwise
import Mathlib.Order.Basic

/-!
# Numbers of fixed width

A number type of fixed width holds the numbers below a limit.

* `Addition`: an addition as a program evaluates it. If the exact result does not fit, an
  unchecked addition wraps (`wrapped`) and a checked one has no result (`checked`). An addition
  that overflows always gives less than it was applied to (`wrapped_lt_left`).
* `Checked`: a computation whose additions are checked. It remembers which ones it evaluated, and
  has a result exactly if all of them fit.
* `Ascends`: a receiver that drops duplicates keeps a *mark*, the highest number it took, and takes
  a number only if it is above the mark. What it took is then in increasing order.
-/

/-- An addition in a type that holds the numbers below `limit`. -/
structure Addition where
  left : Nat
  right : Nat
  limit : Nat
  deriving DecidableEq

namespace Addition

variable {a b : Addition} {n : Nat}

def exact (a : Addition) : Nat := a.left + a.right

/-- The addition does not overflow. -/
def Fits (a : Addition) : Prop := a.exact < a.limit

instance (a : Addition) : Decidable a.Fits := inferInstanceAs (Decidable (_ < _))

/-- The result of an unchecked addition. -/
def wrapped (a : Addition) : Nat := a.exact % a.limit

/-- The result of a checked addition. -/
def checked (a : Addition) : Option Nat := if a.Fits then some a.exact else none

theorem wrapped_of_fits (h : a.Fits) : a.wrapped = a.exact := Nat.mod_eq_of_lt h

theorem checked_eq_none_iff : a.checked = none ↔ ¬ a.Fits := by
  unfold checked
  split_ifs with h <;> simp [h]

theorem wrapped_of_not_fits (h : ¬ a.Fits) (hleft : a.left < a.limit) (hright : a.right < a.limit) :
    a.wrapped + a.limit = a.exact := by
  unfold Fits exact at h
  rw [wrapped, exact, Nat.mod_eq_sub_mod (by omega), Nat.mod_eq_of_lt (by omega)]
  omega

/-- An overflow is a step back. -/
theorem wrapped_lt_left (h : ¬ a.Fits) (hleft : a.left < a.limit) (hright : a.right < a.limit) :
    a.wrapped < a.left := by
  have := wrapped_of_not_fits h hleft hright
  unfold exact at this
  omega

theorem toNat_add (m n : UInt64) :
    (m + n).toNat = (⟨m.toNat, n.toNat, 2 ^ 64⟩ : Addition).wrapped :=
  UInt64.toNat_add m n

end Addition

/-- A computation that stops at the first addition that overflows. -/
structure Checked (α : Type) where
  /-- The additions that were evaluated. -/
  additions : List Addition
  result : Option α
  isSome_iff : result.isSome = true ↔ ∀ a ∈ additions, a.Fits

namespace Checked

variable {α β : Type}

def add (a : Addition) : Checked Nat where
  additions := [a]
  result := a.checked
  isSome_iff := by
    rw [List.forall_mem_singleton, ← not_iff_not, Option.not_isSome_iff_eq_none,
      Addition.checked_eq_none_iff]

def ok (a : α) : Checked α := ⟨[], some a, by simp⟩

/-- Go on with the result, if there is one. -/
def andThen (c : Checked α) (f : α → Checked β) : Checked β where
  additions := c.additions ++ (c.result.map f).toList.flatMap additions
  result := c.result.bind fun a => (f a).result
  isSome_iff := by
    rw [List.forall_mem_append, ← c.isSome_iff]
    cases c.result with
    | none => simp
    | some a => simp [(f a).isSome_iff]

instance : Monad Checked where
  pure := ok
  bind := andThen

/-- An addition that fits goes on with the exact result. -/
theorem result_add_bind (a : Addition) (f : Nat → Checked β) :
    (add a >>= f).result = if a.Fits then (f a.exact).result else none := by
  show a.checked.bind _ = _
  rw [Addition.checked]
  by_cases h : a.Fits
  · rw [if_pos h, if_pos h, Option.bind_some]
  · rw [if_neg h, if_neg h, Option.bind_none]

end Checked

/-- What was taken is in increasing order, up to the mark. -/
structure Ascends {α : Type*} [Preorder α] (taken : List α) (mark : α) : Prop where
  sorted : taken.Pairwise (· < ·)
  le_mark : ∀ n ∈ taken, n ≤ mark

namespace Ascends

variable {α : Type*} [Preorder α] {taken : List α} {mark : α} {next : Option α}

theorem nil (mark : α) : Ascends [] mark := ⟨.nil, fun _ hn => by cases hn⟩

/-- The mark does not go back. -/
theorem le_getD (hnext : ∀ n ∈ next, mark < n) : mark ≤ next.getD mark := by
  cases next with
  | none => exact le_rfl
  | some n => exact (hnext n rfl).le

/-- What is taken next is above the mark. -/
theorem take (h : Ascends taken mark) (hnext : ∀ n ∈ next, mark < n) :
    Ascends (taken ++ next.toList) (next.getD mark) := by
  cases next with
  | none => simpa using h
  | some n =>
    have hlt : mark < n := hnext n rfl
    refine ⟨List.pairwise_append.mpr ⟨h.sorted, List.pairwise_singleton _ _, ?_⟩, ?_⟩
    · intro m hm k hk
      rw [List.mem_singleton.mp hk]
      exact (h.le_mark m hm).trans_lt hlt
    · intro m hm
      rcases List.mem_append.mp hm with hm | hm
      · exact (h.le_mark m hm).trans hlt.le
      · exact (List.mem_singleton.mp hm).le

/-- Nothing is taken twice. -/
theorem nodup (h : Ascends taken mark) : taken.Nodup := h.sorted.imp fun hlt => hlt.ne

end Ascends
