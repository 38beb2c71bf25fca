import Mathlib.Data.List.Basic

/-!
# Pumps

A *pump* serves one connection in both directions. What it reads from the connection it hands on
chunk by chunk, to whoever sits behind it. The chunks that others push into its inbox it writes to
the connection, in order and possibly in parts.

A pump records everything it read and wrote. Two sequences are followed through its steps:

* what it has handed on, together with the chunk at hand, is what it read (`io_handed`);
* what was pushed is what it wrote, followed by what it still holds (`io_received`), so what it
  wrote is always a prefix of what was pushed (`Behind`).
-/

universe u

/-- Why a pump stopped. -/
inductive Stop where
  /-- The connection ended or failed. -/
  | connection
  /-- A chunk could not be handed on. -/
  | peer
  /-- Nobody is left who could push into the inbox. -/
  | inbox
  deriving DecidableEq

inductive PumpPc (α : Type u) where
  | idle
  /-- A chunk was read and has to be handed on. -/
  | handing (chunk : List α)
  /-- A chunk is being written. -/
  | writing (rest : List α)
  | stopped (why : Stop)
  deriving DecidableEq

structure Pump (α : Type u) where
  pc : PumpPc α
  inbox : List (List α)
  /-- Everything read from the connection. -/
  read : List α
  /-- Everything written to it. -/
  written : List α
  deriving DecidableEq

/-- What the connection does. -/
inductive PumpIo (α : Type u) where
  | read (chunk : List α)
  | readEnd
  /-- The next chunk of the inbox is taken up. -/
  | take
  | wrote (n : Nat)
  | writeFailed
  deriving DecidableEq

namespace Pump

variable {α : Type u} {p p' : Pump α} {e : PumpIo α} {cap : Nat} {src src' out chunk : List α}

def start : Pump α := ⟨.idle, [], [], []⟩

/-- One step of the connection's side, with reads of at most `cap`. -/
def io (cap : Nat) (p : Pump α) (e : PumpIo α) : Option (Pump α) :=
  match p.pc, e with
  | .idle, .read chunk =>
    if 0 < chunk.length && chunk.length ≤ cap then
      some { p with pc := .handing chunk, read := p.read ++ chunk }
    else none
  | .idle, .readEnd => some { p with pc := .stopped .connection }
  | .idle, .take =>
    match p.inbox with
    | [] => none
    | chunk :: inbox => some { p with pc := .writing chunk, inbox := inbox }
  | .writing rest, .wrote n =>
    if n ≤ rest.length && (0 < n || rest.isEmpty) then
      let pc : PumpPc α := if n = rest.length then .idle else .writing (rest.drop n)
      some { p with pc := pc, written := p.written ++ rest.take n }
    else none
  | .writing _, .writeFailed => some { p with pc := .stopped .connection }
  | _, _ => none

/-- The chunk at hand was handed on, or could not be. -/
def handed (p : Pump α) (ok : Bool) : Pump α :=
  { p with pc := if ok then .idle else .stopped .peer }

/-- Nobody can push any more and everything was written. -/
def inboxClosed (p : Pump α) : Option (Pump α) :=
  if p.pc matches .idle && p.inbox.isEmpty then some { p with pc := .stopped .inbox } else none

def push (p : Pump α) (chunk : List α) : Pump α := { p with inbox := p.inbox ++ [chunk] }

/-- Whether the pump has not stopped. -/
def running (p : Pump α) : Bool :=
  match p.pc with
  | .stopped _ => false
  | _ => true

/-- The chunk that was read and not handed on yet. -/
def unhanded (p : Pump α) : List α :=
  match p.pc with
  | .handing chunk => chunk
  | _ => []

/-- What is left of the chunk being written. -/
def unwritten (p : Pump α) : List α :=
  match p.pc with
  | .writing rest => rest
  | _ => []

/-- Everything that was pushed, as long as the pump runs. -/
def received (p : Pump α) : List α := p.written ++ (p.unwritten ++ p.inbox.flatten)

@[simp] theorem push_read (p : Pump α) (chunk : List α) : (p.push chunk).read = p.read := rfl

@[simp] theorem push_written (p : Pump α) (chunk : List α) :
    (p.push chunk).written = p.written := rfl

@[simp] theorem push_pc (p : Pump α) (chunk : List α) : (p.push chunk).pc = p.pc := rfl

@[simp] theorem push_running (p : Pump α) (chunk : List α) :
    (p.push chunk).running = p.running := rfl

@[simp] theorem push_unhanded (p : Pump α) (chunk : List α) :
    (p.push chunk).unhanded = p.unhanded := rfl

@[simp] theorem push_received (p : Pump α) (chunk : List α) :
    (p.push chunk).received = p.received ++ chunk := by
  have hw : (p.push chunk).unwritten = p.unwritten := rfl
  rw [received, received, hw]
  simp [push]

@[simp] theorem handed_read (p : Pump α) (ok : Bool) : (p.handed ok).read = p.read := rfl

@[simp] theorem handed_running (p : Pump α) (ok : Bool) : (p.handed ok).running = ok := by
  cases ok <;> rfl

@[simp] theorem handed_unhanded (p : Pump α) (ok : Bool) : (p.handed ok).unhanded = [] := by
  cases ok <;> rfl

theorem running_of_handing (hh : p.pc = .handing chunk) : p.running = true := by
  simp [running, hh]

theorem handed_received (hh : p.pc = .handing chunk) (ok : Bool) :
    (p.handed ok).received = p.received := by
  cases ok <;> simp [received, unwritten, handed, hh]

theorem inboxClosed_eq_some (h : p.inboxClosed = some p') :
    p.pc = .idle ∧ p.inbox = [] ∧ p' = { p with pc := .stopped .inbox } := by
  simp only [inboxClosed] at h
  split_ifs at h with hg
  cases h
  simp only [Bool.and_eq_true, List.isEmpty_iff] at hg
  refine ⟨?_, hg.2, rfl⟩
  cases hp : p.pc <;> simp_all

/-! ## Steps of the connection -/

/-- Every step of the connection's side. -/
inductive Io (cap : Nat) (p : Pump α) : PumpIo α → Pump α → Prop
  | read {chunk : List α} (hp : p.pc = .idle) (hpos : 0 < chunk.length)
      (hle : chunk.length ≤ cap) :
      Io cap p (.read chunk) { p with pc := .handing chunk, read := p.read ++ chunk }
  | readEnd (hp : p.pc = .idle) : Io cap p .readEnd { p with pc := .stopped .connection }
  | take {chunk : List α} {inbox : List (List α)} (hp : p.pc = .idle)
      (hin : p.inbox = chunk :: inbox) :
      Io cap p .take { p with pc := .writing chunk, inbox := inbox }
  | wrotePart {rest : List α} {n : Nat} (hp : p.pc = .writing rest) (hn : n ≤ rest.length) :
      Io cap p (.wrote n)
        { p with pc := .writing (rest.drop n), written := p.written ++ rest.take n }
  | wroteAll {rest : List α} (hp : p.pc = .writing rest) :
      Io cap p (.wrote rest.length) { p with pc := .idle, written := p.written ++ rest }
  | writeFailed {rest : List α} (hp : p.pc = .writing rest) :
      Io cap p .writeFailed { p with pc := .stopped .connection }

theorem Io.of_io (h : p.io cap e = some p') : Io cap p e p' := by
  unfold io at h
  split at h
  · simp only [Bool.and_eq_true, decide_eq_true_eq] at h
    split_ifs at h with hg
    cases h; exact .read ‹_› hg.1 hg.2
  · cases h; exact .readEnd ‹_›
  · split at h
    · cases h
    · cases h; exact .take ‹_› ‹_›
  · rename_i rest n hp
    simp only [Bool.and_eq_true, decide_eq_true_eq] at h
    split_ifs at h with hg hn
    · cases h
      subst hn
      rw [List.take_length]
      exact .wroteAll hp
    · cases h; exact .wrotePart hp hg.1
  · cases h; exact .writeFailed ‹_›
  · cases h

theorem Io.running (h : Io cap p e p') : p.running = true := by
  cases h <;> simp [Pump.running, *]

theorem Io.read_le (h : Io cap p e p') : p.read <+: p'.read := by
  cases h with
  | read => exact List.prefix_append ..
  | _ => exact List.prefix_refl _

/-- A pump has handed on what it read, up to the chunk at hand. -/
theorem Io.handed (h : Io cap p e p') (hout : out ++ p.unhanded = p.read)
    (hrun : p'.running = true) : out ++ p'.unhanded = p'.read := by
  cases h with
  | read hp => rw [← hout]; simp [unhanded, hp]
  | readEnd => cases hrun
  | take hp => simpa [unhanded, hp] using hout
  | wrotePart hp => simpa [unhanded, hp] using hout
  | wroteAll hp => simpa [unhanded, hp] using hout
  | writeFailed => cases hrun

theorem take_drop_append (rest l : List α) (n : Nat) :
    rest.take n ++ (rest.drop n ++ l) = rest ++ l := by
  rw [← List.append_assoc, List.take_append_drop]

/-- Nothing that was pushed is lost while the pump runs. -/
theorem Io.received (h : Io cap p e p') (hrun : p'.running = true) :
    p'.received = p.received := by
  cases h with
  | read hp => simp [Pump.received, unwritten, hp]
  | readEnd => cases hrun
  | take hp hin => simp [Pump.received, unwritten, hp, hin]
  | wrotePart hp => simp [Pump.received, unwritten, hp, take_drop_append]
  | wroteAll hp => simp [Pump.received, unwritten, hp]
  | writeFailed => cases hrun

theorem written_le_received (p : Pump α) : p.written <+: p.received := List.prefix_append ..

/-- What a step wrote had been pushed. -/
theorem Io.written_le (h : Io cap p e p') : p'.written <+: p.received := by
  cases h with
  | @wrotePart rest n hp =>
    refine ⟨rest.drop n ++ p.inbox.flatten, ?_⟩
    simp [Pump.received, unwritten, hp, take_drop_append]
  | wroteAll hp => exact ⟨p.inbox.flatten, by simp [Pump.received, unwritten, hp]⟩
  | _ => exact p.written_le_received

/-! ## Prefixes -/

/-- The pump writes from `src`: what it wrote is a prefix, and while it runs so is everything that
was pushed. -/
structure Behind (p : Pump α) (src : List α) : Prop where
  written : p.written <+: src
  received : p.running = true → p.received <+: src

theorem Behind.mono (h : p.Behind src) (hle : src <+: src') : p.Behind src' :=
  ⟨h.written.trans hle, fun hrun => (h.received hrun).trans hle⟩

theorem Behind.io (h : p.Behind src) (hio : Io cap p e p') : p'.Behind src := by
  have hsrc := h.received hio.running
  refine ⟨hio.written_le.trans hsrc, fun hrun => ?_⟩
  rw [hio.received hrun]
  exact hsrc

theorem Behind.handed (h : p.Behind src) (hh : p.pc = .handing chunk) (ok : Bool) :
    (p.handed ok).Behind src := by
  refine ⟨h.written, fun _ => ?_⟩
  rw [handed_received hh]
  exact h.received (running_of_handing hh)

theorem Behind.stop (h : p.Behind src) (why : Stop) :
    ({ p with pc := .stopped why } : Pump α).Behind src :=
  ⟨h.written, fun hrun => by cases hrun⟩

theorem Behind.push (h : p.Behind src) (hfull : p.running = true → p.received = src) :
    (p.push chunk).Behind (src ++ chunk) := by
  refine ⟨h.written.trans (List.prefix_append ..), fun hrun => ?_⟩
  have hreceived : (p.push chunk).received = src ++ chunk := by rw [push_received, hfull hrun]
  exact hreceived ▸ List.prefix_refl _

end Pump
