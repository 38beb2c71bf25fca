import HerdrEternal.Lib.Machine

/-!
# First in, first out

The abstract channel: what is put in comes out once, in order, and only what is at the front of the
queue can be got.
-/

namespace HerdrEternal

inductive FifoLabel (α : Type) where
  | put (a : α)
  | get (a : α)
  deriving DecidableEq

namespace Fifo

variable {α : Type} [DecidableEq α] {q : List α}

def step (q : List α) : FifoLabel α → Option (List α)
  | .put a => some (q ++ [a])
  | .get a => if q.head? = some a then some q.tail else none

/-- A channel starts empty. -/
def machine (α : Type) [DecidableEq α] : Machine (List α) (FifoLabel α) := ⟨(· = []), step⟩

theorem run_put (a : α) : (machine α).run q [.put a] = some (q ++ [a]) := rfl

theorem run_get (a : α) : (machine α).run (a :: q) [.get a] = some q := by
  simp [Machine.run, machine, step]

end Fifo

end HerdrEternal
