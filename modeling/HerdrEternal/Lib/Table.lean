import Mathlib.Algebra.GroupWithZero.Nat
import Mathlib.Data.List.Basic

/-!
# Tables

A *table* is a list whose entries are known by their position and never move: it is changed at one
position, or a new entry is put behind the last one. The lemmas say which entry a changed table
has at a position, in the form every invariant over tables asks for: from an entry of the new
table back to the entry of the old one.
-/

namespace Table

variable {α : Type*} {l : List α} {i j : Nat} {a b : α}

/-- An entry of a table changed by `f` at `i`. -/
theorem of_modify {f : α → α} (h : (l.modify i f)[j]? = some b) :
    ∃ a, l[j]? = some a ∧ (j = i ∧ b = f a ∨ j ≠ i ∧ b = a) := by
  rw [List.getElem?_modify] at h
  obtain ⟨a, ha, hb⟩ := Option.map_eq_some_iff.mp h
  refine ⟨a, ha, ?_⟩
  by_cases hij : i = j
  · rw [if_pos hij] at hb
    exact .inl ⟨hij.symm, hb.symm⟩
  · rw [if_neg hij] at hb
    exact .inr ⟨Ne.symm hij, hb.symm⟩

theorem modify_self {f : α → α} (h : l[i]? = some a) : (l.modify i f)[i]? = some (f a) := by
  rw [List.getElem?_modify_eq, h]
  rfl

theorem of_set (h : (l.set i a)[j]? = some b) : j = i ∧ b = a ∨ j ≠ i ∧ l[j]? = some b := by
  rw [List.getElem?_set] at h
  by_cases hij : i = j
  · rw [if_pos hij] at h
    split_ifs at h
    exact .inl ⟨hij.symm, (Option.some.inj h).symm⟩
  · rw [if_neg hij] at h
    exact .inr ⟨Ne.symm hij, h⟩

theorem set_self (h : l[i]? = some b) : (l.set i a)[i]? = some a :=
  List.getElem?_set_self (List.getElem?_eq_some_iff.mp h).1

theorem set_same (h : l[i]? = some a) : l.set i a = l := by
  obtain ⟨hlt, rfl⟩ := List.getElem?_eq_some_iff.mp h
  exact List.set_getElem_self hlt

/-- The entries other than the changed one are still there. -/
theorem mem_set_of_ne {c : α} (h : l[i]? = some b) (hc : c ∈ l) (hne : c ≠ b) : c ∈ l.set i a := by
  obtain ⟨j, hj⟩ := List.mem_iff_getElem?.mp hc
  have hij : i ≠ j := by
    rintro rfl
    exact hne (Option.some.inj (hj.symm.trans h))
  exact List.mem_of_getElem? (by rw [List.getElem?_set_ne hij, hj])

/-- An entry of a table with one more entry. -/
theorem of_concat (h : (l ++ [a])[j]? = some b) : l[j]? = some b ∨ j = l.length ∧ b = a := by
  rcases Nat.lt_or_ge j l.length with hj | hj
  · rw [List.getElem?_append_left hj] at h
    exact .inl h
  · rw [List.getElem?_append_right hj, List.getElem?_singleton] at h
    split_ifs at h with hz
    exact .inr ⟨by omega, (Option.some.inj h).symm⟩

section

variable {P : Nat → α → Prop}

/-- What holds of every entry, and of the one that is put at `i`. -/
theorem forall_set (h : ∀ j b, l[j]? = some b → P j b) (ha : P i a) :
    ∀ j b, (l.set i a)[j]? = some b → P j b := by
  intro j b hb
  obtain ⟨rfl, rfl⟩ | ⟨-, hb⟩ := of_set hb
  · exact ha
  · exact h j b hb

/-- What holds of every entry, and of the one that is put behind the last. -/
theorem forall_concat (h : ∀ j b, l[j]? = some b → P j b) (ha : P l.length a) :
    ∀ j b, (l ++ [a])[j]? = some b → P j b := by
  intro j b hb
  obtain hb | ⟨rfl, rfl⟩ := of_concat hb
  · exact h j b hb
  · exact ha

end

/-- A change that a projection of the entries does not see. -/
theorem map_modify_of_eq {β : Type*} {g : α → α} {f : α → β} (hf : ∀ a, f (g a) = f a) :
    (l.modify i g).map f = l.map f := by
  apply List.ext_getElem?
  intro j
  rw [List.getElem?_map, List.getElem?_map, List.getElem?_modify]
  by_cases hij : i = j <;> simp [hij, Function.comp_def, hf]

theorem map_set_of_eq {β : Type*} {f : α → β} (h : l[i]? = some b) (hf : f a = f b) :
    (l.set i a).map f = l.map f := by
  apply List.ext_getElem?
  intro j
  rw [List.getElem?_map, List.getElem?_map]
  by_cases hij : i = j
  · subst hij
    rw [set_self h, h]
    exact congrArg some hf
  · rw [List.getElem?_set_ne hij]

theorem lt_of_getElem? (h : l[i]? = some a) : i < l.length := (List.getElem?_eq_some_iff.mp h).1

section

variable {p : α → Bool}

/-- Counting the entries with a property across a change at one position. -/
theorem countP_set_add (h : l[i]? = some b) :
    (l.set i a).countP p + (p b).toNat = l.countP p + (p a).toNat := by
  obtain ⟨hi, rfl⟩ := List.getElem?_eq_some_iff.mp h
  have hpos : p l[i] = true → 0 < l.countP p := fun hp =>
    List.countP_pos_iff.mpr ⟨_, List.getElem_mem hi, hp⟩
  rw [List.countP_set hi]
  cases hb : p l[i] <;> cases ha : p a <;> simp_all

theorem countP_set_of_eq (h : l[i]? = some b) (hp : p a = p b) :
    (l.set i a).countP p = l.countP p := by
  have := countP_set_add (a := a) (p := p) h
  rw [hp] at this
  omega

end

/-- Adding up a number of every entry across a change at one position. -/
theorem sum_map_set_add {f : α → Nat} (h : l[i]? = some b) :
    ((l.set i a).map f).sum + f b = (l.map f).sum + f a := by
  induction l generalizing i with
  | nil => cases h
  | cons c l ih =>
    cases i with
    | zero =>
      cases h
      simp only [List.set_cons_zero, List.map_cons, List.sum_cons]
      omega
    | succ i =>
      have := ih h
      simp only [List.set_cons_succ, List.map_cons, List.sum_cons]
      omega

end Table
