import Mathlib.Data.List.Basic
import Mathlib.Data.List.Infix

/-!
# Numbered histories and their segments

A *history* is a list that only grows at its end. Its elements are *numbered* when the element at
index `i` carries the number `i + 1`. A *segment at `x`* is a contiguous piece of the history
that starts behind its first `x` elements: what a FIFO queue holds when the history is fed
through it in order.

Segments survive growth of the history, lose their head when a queue is read and gain an element
when one is written. Two queues fed from one history can be compared by their positions alone,
because the number of an element determines the element.
-/

namespace History

variable {α : Type*}

/-! ## Segments -/

/-- `s` is a contiguous piece of `l` behind its first `x` elements. -/
def SegmentAt (l : List α) (x : Nat) (s : List α) : Prop := s <+: l.drop x

theorem SegmentAt.nil (l : List α) (x : Nat) : SegmentAt l x [] := List.nil_prefix

theorem segmentAt_drop (l : List α) (x : Nat) : SegmentAt l x (l.drop x) := List.prefix_refl _

/-- The history may grow. -/
theorem SegmentAt.mono {l l' s : List α} {x : Nat} (h : SegmentAt l x s) (hl : l <+: l') :
    SegmentAt l' x s :=
  h.trans (hl.drop x)

/-- Reading the head moves the segment's start by one. -/
theorem segmentAt_cons {l s : List α} {x : Nat} {a : α} :
    SegmentAt l x (a :: s) ↔ l[x]? = some a ∧ SegmentAt l (x + 1) s := by
  unfold SegmentAt
  rw [← List.head?_drop, ← List.tail_drop]
  cases hd : l.drop x with
  | nil => simp
  | cons b t =>
    rw [List.cons_prefix_cons, List.head?_cons, List.tail_cons, Option.some.injEq]
    exact and_congr_left fun _ => eq_comm

/-- Writing the element that comes next extends the segment. -/
theorem SegmentAt.concat {l s : List α} {x : Nat} {a : α} (h : SegmentAt l x s)
    (ha : l[x + s.length]? = some a) : SegmentAt l x (s ++ [a]) := by
  obtain ⟨t, ht⟩ := h
  have hd : l.drop (x + s.length) = t := by
    rw [← List.drop_drop, ← ht, List.drop_left]
  rw [← List.head?_drop, hd] at ha
  cases t with
  | nil => cases ha
  | cons b t =>
    cases ha
    exact ⟨t, by rw [← ht]; simp⟩

/-! ## Numbered histories -/

/-- The element at index `i` carries the number `i + 1`. -/
def Numbered (num : α → Option Nat) (l : List α) : Prop :=
  ∀ i a, l[i]? = some a → num a = some (i + 1)

section

variable {num : α → Option Nat} {l : List α}

theorem Numbered.nil : Numbered num [] := fun i a h => by simp at h

theorem Numbered.concat (h : Numbered num l) {a : α} (ha : num a = some (l.length + 1)) :
    Numbered num (l ++ [a]) := by
  intro i b hb
  rcases Nat.lt_or_ge i l.length with hi | hi
  · rw [List.getElem?_append_left hi] at hb
    exact h i b hb
  · rw [List.getElem?_append_right hi, List.getElem?_singleton] at hb
    split_ifs at hb with hz
    cases hb
    rw [ha, show i = l.length by omega]

/-- A member's number says where it stands. -/
theorem Numbered.getElem? (h : Numbered num l) {a : α} (ha : a ∈ l) {n : Nat}
    (hn : num a = some n) : 0 < n ∧ n ≤ l.length ∧ l[n - 1]? = some a := by
  obtain ⟨i, hi, rfl⟩ := List.getElem_of_mem ha
  have := h i _ (List.getElem?_eq_getElem hi)
  rw [hn, Option.some.injEq] at this
  subst this
  exact ⟨by omega, hi, by simp [hi]⟩

/-- Dropping by number is dropping by position. -/
theorem Numbered.filter_drop (h : Numbered num l) (x n : Nat) {p : α → Bool}
    (hp : ∀ a ∈ l, ∀ k, num a = some k → p a = decide (n < k)) :
    (l.drop x).filter p = l.drop (max x n) := by
  have hsplit : l.drop x = (l.drop x).take (n - x) ++ l.drop (max x n) := by
    rw [show max x n = x + (n - x) by omega, ← List.drop_drop, List.take_append_drop]
  have hold : ((l.drop x).take (n - x)).filter p = [] := by
    rw [List.filter_eq_nil_iff]
    intro a ha
    obtain ⟨i, hi⟩ := List.mem_iff_getElem?.mp ha
    have hlt : i < n - x := by
      have := (List.getElem?_eq_some_iff.mp hi).1
      rw [List.length_take] at this
      omega
    rw [List.getElem?_take_of_lt hlt, List.getElem?_drop] at hi
    rw [hp a (List.mem_of_getElem? hi) _ (h _ a hi), decide_eq_true_eq]
    omega
  have hnew : (l.drop (max x n)).filter p = l.drop (max x n) := by
    rw [List.filter_eq_self]
    intro a ha
    obtain ⟨i, hi⟩ := List.mem_iff_getElem?.mp ha
    rw [List.getElem?_drop] at hi
    rw [hp a (List.mem_of_getElem? hi) _ (h _ a hi), decide_eq_true_eq]
    omega
  rw [hsplit, List.filter_append, hold, hnew, List.nil_append]

end

/-- Appending to a list keeps what was there. -/
theorem getElem?_mono {l l' : List α} (h : l <+: l') {i : Nat} {a : α}
    (ha : l[i]? = some a) : l'[i]? = some a := by
  obtain ⟨t, rfl⟩ := h
  have hi : i < l.length := by
    by_contra hc
    rw [List.getElem?_eq_none (by omega)] at ha
    cases ha
  rwa [List.getElem?_append_left hi]

theorem take_mono {l l' : List α} (h : l <+: l') {n : Nat} (hn : n ≤ l.length) :
    l'.take n = l.take n := by
  obtain ⟨t, rfl⟩ := h
  exact List.take_append_of_le_length hn

end History
