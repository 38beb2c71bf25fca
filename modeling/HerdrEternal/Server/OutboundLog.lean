import HerdrEternal.Lib.Segment
import HerdrEternal.Proto.Message

/-!
# The outbound log of a session

`OutboundLog` of `server/src/lib.rs` keeps the Stdout, Stderr and Exit messages of a session for
replay. Acknowledged entries are dropped from the front; the entry at buffer index `i` carries
the sequence number `trimmed + i + 1`.

**What it stands for** (`Refines`). The log is a window on an append-only history `H`: it has
forgotten the first `trimmed` messages and still holds the others. Each operation of the code is
an operation on the window: `push` extends the history, `trim s` moves the window's start to at
most `s`, `after s` reads the history behind `s` (or behind the window's start, if that is
further), and a snapshot restored elsewhere is the same window.
-/

namespace HerdrEternal

open History

/-- A message of a run; sequence numbers do not wrap in runs. -/
abbrev Msg := ChannelMessage Nat

/-- The number a message carries in its direction's sequence. -/
def ChannelMessage.seq? : Msg → Option Nat
  | .stdin seq _ | .stdinEof seq | .stdout seq _ | .stderr seq _ | .exit seq _ => some seq
  | _ => none

structure OutboundLog where
  buffer : List Msg
  /-- Number of leading entries dropped after the client acknowledged them. -/
  trimmed : Nat
  /-- The value last published on the watch channel. -/
  latest : Nat
  deriving DecidableEq

namespace OutboundLog

def empty : OutboundLog := ⟨[], 0, 0⟩

def push (l : OutboundLog) (message : Msg) : OutboundLog :=
  let buffer := l.buffer ++ [message]
  { l with buffer := buffer, latest := l.trimmed + buffer.length }

def after (l : OutboundLog) (seq : Nat) : List Msg := l.buffer.drop (seq - l.trimmed)

/-- The loop of `trim`: pop while the first entry is acknowledged. -/
def trimLoop (seq : Nat) : List Msg → Nat → List Msg × Nat
  | [], trimmed => ([], trimmed)
  | m :: buffer, trimmed =>
    if trimmed < seq then trimLoop seq buffer (trimmed + 1) else (m :: buffer, trimmed)

/-- Drops entries up to and including `seq`. -/
def trim (l : OutboundLog) (seq : Nat) : OutboundLog :=
  let (buffer, trimmed) := trimLoop seq l.buffer l.trimmed
  { l with buffer := buffer, trimmed := trimmed }

def snapshot (l : OutboundLog) : Nat × List Msg := (l.trimmed, l.buffer)

/-- Rebuilds a log handed over by the previous daemon instance. -/
def restore (trimmed : Nat) (buffer : List Msg) : OutboundLog :=
  ⟨buffer, trimmed, trimmed + buffer.length⟩

/-! ## The window on the history -/

/-- `l` is the window on `H` behind its first `l.trimmed` messages. -/
structure Refines (H : List Msg) (l : OutboundLog) : Prop where
  trimmed_le : l.trimmed ≤ H.length
  buffer_eq : l.buffer = H.drop l.trimmed
  latest_eq : l.latest = H.length

variable {H : List Msg} {l : OutboundLog}

theorem refines_empty : Refines [] empty := ⟨le_rfl, rfl, rfl⟩

theorem Refines.push (h : Refines H l) (m : Msg) : Refines (H ++ [m]) (l.push m) where
  trimmed_le := by simpa [OutboundLog.push] using Nat.le_succ_of_le h.trimmed_le
  buffer_eq := by
    show l.buffer ++ [m] = (H ++ [m]).drop l.trimmed
    rw [List.drop_append_of_le_length h.trimmed_le, h.buffer_eq]
  latest_eq := by
    show l.trimmed + (l.buffer ++ [m]).length = _
    have := h.trimmed_le
    simp only [h.buffer_eq, List.length_append, List.length_drop, List.length_singleton]
    omega

theorem trimLoop_eq (seq : Nat) (buffer : List Msg) (trimmed : Nat) :
    trimLoop seq buffer trimmed =
      (buffer.drop (seq - trimmed), trimmed + min (seq - trimmed) buffer.length) := by
  induction buffer generalizing trimmed with
  | nil => simp [trimLoop]
  | cons m buffer ih =>
    rw [trimLoop]
    split_ifs with h
    · obtain ⟨k, hk⟩ : ∃ k, seq - trimmed = k + 1 := ⟨seq - trimmed - 1, by omega⟩
      rw [ih, show seq - (trimmed + 1) = k by omega, hk, List.drop_succ_cons, List.length_cons]
      congr 1
      omega
    · rw [show seq - trimmed = 0 by omega]
      simp

/-- `trim` moves the start of the window forward, never past the end of the history. -/
theorem Refines.trimmed_trim (h : Refines H l) (seq : Nat) :
    (l.trim seq).trimmed = max l.trimmed (min seq H.length) := by
  have := h.trimmed_le
  simp only [trim, trimLoop_eq, h.buffer_eq, List.length_drop]
  omega

theorem Refines.trim (h : Refines H l) (seq : Nat) : Refines H (l.trim seq) where
  trimmed_le := by
    have := h.trimmed_le
    rw [h.trimmed_trim]
    omega
  buffer_eq := by
    have hle := h.trimmed_le
    have hbuf : (l.trim seq).buffer = H.drop (l.trimmed + (seq - l.trimmed)) := by
      simp only [OutboundLog.trim, trimLoop_eq, h.buffer_eq, List.drop_drop]
    rw [hbuf, h.trimmed_trim]
    rcases Nat.le_total seq H.length with hs | hs
    · congr 1
      omega
    · rw [List.drop_eq_nil_of_le (by omega), List.drop_eq_nil_of_le (by omega)]
  latest_eq := h.latest_eq

/-- `after` reads the history behind `seq`, or behind the start of the window. -/
theorem Refines.after_eq (h : Refines H l) (seq : Nat) :
    l.after seq = H.drop (max seq l.trimmed) := by
  rw [after, h.buffer_eq, List.drop_drop]
  congr 1
  omega

theorem Refines.restore (h : Refines H l) :
    Refines H (OutboundLog.restore l.snapshot.1 l.snapshot.2) where
  trimmed_le := h.trimmed_le
  buffer_eq := h.buffer_eq
  latest_eq := by
    have := h.trimmed_le
    simp only [OutboundLog.restore, snapshot, h.buffer_eq, List.length_drop]
    omega

end OutboundLog

end HerdrEternal
