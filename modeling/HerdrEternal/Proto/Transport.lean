import HerdrEternal.Lib.Fifo
import HerdrEternal.Lib.Refinement
import HerdrEternal.Proto.Codec

/-!
# One direction of a connection

A connection carries messages over a QUIC stream or a WebSocket. This file follows one direction
from `send` to `next`, byte by byte for QUIC, and shows that both are the same channel of messages.

**QUIC** (`QuicStream`). `send` writes the frame of a message with `write_all`: any number of bytes
at a time, until the frame is written or a write fails. What was written is delivered in order, in
chunks of up to `CHUNK` bytes, to a `Reader`: `next` pops a buffered frame or waits for a chunk, and
a `select!` loop may drop it while it waits.

**WebSocket** (`WsStream`). The library keeps the message boundaries, and sends nothing behind a
close. `next` skips what is not a binary message, and ends at a close.

Either connection may break at any time; then there are no more steps.

**Theorem (`transports_deliver`).** Both refine `Fifo`, whose queue is what `decode` gives for the
frames on the wire, as long as every message sent is one the two ends agree on (`Carriable`; all
messages of a session are, see `ChannelMessage.Sendable.carriable`). The receiver has taken the
first messages sent, in order and unaltered, the wire carries the others, and calling `next` again
and again gets them all.
-/

namespace HerdrEternal

open Bytes Postcard

/-- The most that one `read_chunk` returns. -/
def CHUNK : Nat := 64 * 1024

/-! ## Messages that survive the encoding -/

section

variable (z : Zstd) {α : Type} [Postcard α]

/-- The encoding of the message fits a frame and is decoded again. -/
structure Carriable (msg : α) : Prop where
  fits : Fits msg
  frame : (encode z msg).length ≤ MAX_FRAME
  body : (encode z msg).head? = some ENC_RAW ∨ (toStdvec msg).length ≤ MAX_FRAME

variable {z}

theorem Carriable.decode {msg : α} (h : Carriable z msg) : decode z (encode z msg) = .ok msg := by
  rw [decode_encode z h.fits, if_pos h.body]

/-- The messages of a session are within both limits. -/
theorem ChannelMessage.Sendable.carriable {m : ChannelMessage UInt64} (h : m.Sendable) :
    Carriable z m := by
  obtain ⟨hbody, hframe⟩ := ChannelMessage.encode_le z h
  refine ⟨?_, hframe, .inr hbody⟩
  cases m with
  | stdin _ data | stdout _ data | stderr _ data | agentData _ data =>
    show data.length < 2 ^ 64
    exact lt_of_le_of_lt (b := 16 * 1024) (le_trans h (by decide)) (by decide)
  | started _ | denied _ => exact h.elim
  | _ => trivial

end

/-! ## What the two ends of a direction show -/

section

variable (z : Zstd) {α : Type} [Postcard α]

/-- The messages that `decode` accepts. -/
def decoded (frames : List Data) : List α := frames.filterMap fun b => (decode z b).toOption

/-- What one direction has carried, and still carries. -/
structure Direction (α : Type) where
  /-- The frames that the receiver took. -/
  taken : List Data
  /-- Those that it still has to take. -/
  ahead : List Data
  /-- The messages whose frames were completely sent. -/
  sent : List α

/-- A step finishes sending a message, takes a frame, or does neither. -/
inductive Direction.Moves (w w' : Direction α) : Option α → Prop
  | idle (ht : w'.taken = w.taken) (hs : w'.sent = w.sent) : Moves w w' none
  | put (msg : α) (ht : w'.taken = w.taken) (hs : w'.sent = w.sent ++ [msg]) : Moves w w' (some msg)
  | get (body : Data) (ht : w'.taken = w.taken ++ [body]) (hs : w'.sent = w.sent) : Moves w w' none

/-- What a step shows: the message that it finished sending, or those of the frames it took. -/
def shown (finished : Option α) (taken taken' : List Data) : List (FifoLabel α) :=
  finished.toList.map .put ++ (decoded z (taken'.drop taken.length)).map .get

namespace Direction

/-- The frames of the messages sent are those taken, followed by those ahead. -/
structure Carries (w : Direction α) : Prop where
  split : w.taken ++ w.ahead = w.sent.map (encode z)
  carriable : ∀ msg ∈ w.sent, Carriable z msg

/-- The messages on the wire. -/
def queue (w : Direction α) : List α := decoded z w.ahead

variable {z} {w w' : Direction α}

theorem Carries.delivered (h : Carries z w) :
    (w.taken ++ w.ahead).map (decode z) = w.sent.map .ok := by
  rw [h.split, List.map_map]
  exact List.map_congr_left fun msg hmsg => (h.carriable msg hmsg).decode

/-- With nothing ahead, everything was received. -/
theorem Carries.received (h : Carries z w) (hnil : w.ahead = []) :
    w.taken.map (decode z) = w.sent.map .ok := by
  rw [← h.delivered, hnil, List.append_nil]

/-- What is taken without anything being sent was ahead before. -/
theorem Carries.ahead_eq (h : Carries z w) (h' : Carries z w') (bodies : List Data)
    (ht : w'.taken = w.taken ++ bodies) (hs : w'.sent = w.sent) : w.ahead = bodies ++ w'.ahead := by
  have hsplit := h'.split
  rw [ht, hs, ← h.split, List.append_assoc, List.append_cancel_left_eq] at hsplit
  exact hsplit.symm

/-- Between such states, a step is one of the channel. -/
theorem run_shown [DecidableEq α] {finished : Option α} (hm : Moves w w' finished)
    (h : Carries z w) (h' : Carries z w') :
    (Fifo.machine α).run (w.queue z) (shown z finished w.taken w'.taken) = some (w'.queue z) := by
  cases hm with
  | idle ht hs =>
    have hahead := h.ahead_eq h' [] (by rw [ht, List.append_nil]) hs
    simp [shown, decoded, queue, ht, hahead, Machine.run]
  | put msg ht hs =>
    have hsplit := h'.split
    rw [ht, hs, List.map_append, ← h.split, List.append_assoc, List.append_cancel_left_eq] at hsplit
    have hmsg : Carriable z msg := h'.carriable msg (hs ▸ List.mem_append_right _ (by simp))
    have hq : w'.queue z = w.queue z ++ [msg] := by
      simp [queue, decoded, hsplit, List.filterMap_append, hmsg.decode, Except.toOption]
    have hshown : shown z (some msg) w.taken w'.taken = [.put msg] := by simp [shown, decoded, ht]
    rw [hshown, hq]
    exact Fifo.run_put msg
  | get body ht hs =>
    have hahead := h.ahead_eq h' [body] ht hs
    have hbody : body ∈ w.sent.map (encode z) := by
      rw [← h.split, hahead]
      simp
    obtain ⟨msg, hmsg, rfl⟩ := List.mem_map.mp hbody
    have hdec := (h.carriable msg hmsg).decode
    have hq : w.queue z = msg :: w'.queue z := by
      simp [queue, decoded, hahead, hdec, Except.toOption]
    have hshown : shown z none w.taken w'.taken = [.get msg] := by
      simp [shown, decoded, ht, hdec, Except.toOption]
    rw [hshown, hq]
    exact Fifo.run_get msg

end Direction

end

/-! ## A QUIC stream -/

/-- What the reading end does; see `Reader.Op`. -/
inductive QuicRead where
  | call
  | chunk (n : Nat)
  | other
  | cancel
  deriving DecidableEq

inductive QuicLabel (α : Type) where
  | send (msg : α)
  | write (n : Nat)
  | writeFailed
  /-- `finish`, when the connection is closed. -/
  | finish
  | read (r : QuicRead)
  deriving DecidableEq

/-- The message given to `send`. -/
def QuicLabel.given? {α : Type} : QuicLabel α → Option α
  | .send msg => some msg
  | _ => none

/-- One direction of a QUIC connection. `sent` records the messages whose frames were written. -/
structure QuicStream (α : Type) where
  /-- The message being sent, and what is left to write of its frame. -/
  writing : Option (α × Data)
  /-- A write has failed, or the stream was finished; nothing more is written. -/
  shut : Bool
  /-- Written, and not read yet. -/
  net : Data
  reader : Reader
  sent : List α

namespace QuicStream

variable {α : Type} [Postcard α] (z : Zstd)

def init : QuicStream α := ⟨none, false, [], .init, []⟩

/-- The reading end goes on with a step. -/
def readStep (c : QuicStream α) (op : Reader.Op) : Option (QuicStream α) :=
  (c.reader.step op).map fun r => { c with reader := r }

def step (c : QuicStream α) : QuicLabel α → Option (QuicStream α)
  | .send msg =>
    if c.shut || c.writing.isSome then none
    else some { c with writing := some (msg, encodeFrame z msg) }
  | .write n =>
    match c.writing with
    | some (msg, rest) =>
      if !c.shut && 0 < n && n < rest.length then
        some { c with net := c.net ++ rest.take n, writing := some (msg, rest.drop n) }
      else if !c.shut && n = rest.length then
        some { c with net := c.net ++ rest, writing := none, sent := c.sent ++ [msg] }
      else none
    | none => none
  | .writeFailed => if c.writing.isSome then some { c with shut := true } else none
  | .finish => if c.writing.isSome then none else some { c with shut := true }
  | .read .call => c.readStep .call
  | .read (.chunk n) =>
    if 0 < n && n ≤ CHUNK && n ≤ c.net.length then
      { c with net := c.net.drop n }.readStep (.chunk (c.net.take n))
    else none
  | .read .other => c.readStep .other
  | .read .cancel => c.readStep .cancel

def machine : Machine (QuicStream α) (QuicLabel α) := ⟨(· = init), step z⟩

/-- Only messages that both ends agree on are sent. -/
def SendsCarriable (_ : QuicStream α) (l : QuicLabel α) : Prop :=
  ∀ msg, l = .send msg → Carriable z msg

/-- What is written of a frame. -/
def Partly (writing : Option (α × Data)) (done : Data) : Prop :=
  match writing with
  | none => done = []
  | some (msg, rest) => Carriable z msg ∧ rest ≠ [] ∧ done ++ rest = encodeFrame z msg

/-- Everything written is, in this order, in a frame already taken, in the decoder, or on its way;
and it is the frames of the messages sent, followed by a part of one. -/
structure Inv (c : QuicStream α) : Prop where
  reader : c.reader.Inv
  written : ∃ done, c.reader.received ++ c.net = framed (c.sent.map (encode z)) ++ done ∧
    Partly z c.writing done
  carriable : ∀ msg ∈ c.sent, Carriable z msg

variable {z} {c c' : QuicStream α}

theorem not_complete_partly {writing : Option (α × Data)} {done : Data}
    (h : Partly z writing done) : ¬ Complete done := by
  rintro ⟨h4, -, hlen⟩
  cases writing with
  | none =>
    rw [show done = [] from h] at h4
    exact absurd h4 (by simp)
  | some w =>
    obtain ⟨hc, hne, heq⟩ := h
    have hhead : header done = (encode z w.1).length := by
      have hpre : header (done ++ w.2) = header done := by
        unfold header
        rw [List.take_append_of_le_length h4]
      have hframe := header_frameOf_of_le hc.frame []
      rw [List.append_nil] at hframe
      rw [← hpre, heq]
      exact hframe
    have hsum := congrArg List.length heq
    have hpos := List.length_pos_iff.mpr hne
    rw [List.length_append, encodeFrame, length_frameOf] at hsum
    omega

/-- The frames taken are those of the first messages sent; those still to come are in the decoder
and on the way. -/
theorem Inv.frames_eq (h : Inv z c) :
    c.reader.frames ++ (refParse (c.reader.decoder.buf ++ c.net)).1 = c.sent.map (encode z) := by
  obtain ⟨done, hdone, hpart⟩ := h.written
  have hsmall : ∀ b ∈ c.sent.map (encode z), b.length ≤ MAX_FRAME := by
    intro b hb
    obtain ⟨msg, hmsg, rfl⟩ := List.mem_map.mp hb
    exact (h.carriable msg hmsg).frame
  have hparse := refParse_framed hsmall done
  rw [refParse_of_not_complete (not_complete_partly hpart), List.append_nil, ← hdone,
    h.reader.split, List.append_assoc, refParse_framed h.reader.small] at hparse
  exact (Prod.mk.inj hparse).1

/-! ### Steps -/

/-- A step of the reader takes at most one frame. -/
theorem step_frames {r r' : Reader} {op : Reader.Op} (h : r.step op = some r') :
    r'.frames = r.frames ∨ ∃ body, r'.frames = r.frames ++ [body] := by
  have hpop : ∀ (r : Reader) (wait : Bool), (r.popFrame wait).frames = r.frames ∨
      ∃ body, (r.popFrame wait).frames = r.frames ++ [body] := by
    intro r wait
    unfold Reader.popFrame
    split
    · exact .inr ⟨_, rfl⟩
    · exact .inl rfl
    · exact .inl rfl
  cases op <;> simp only [Reader.step, Option.ite_none_left_eq_some,
    Option.ite_none_right_eq_some, Option.some.injEq] at h <;> obtain ⟨-, rfl⟩ := h
  case push bytes => exact .inl rfl
  case nextFrame => exact hpop _ _
  case call => exact hpop _ _
  case chunk bytes => exact hpop _ _
  case other => exact .inl rfl
  case cancel => exact .inl rfl

theorem step_received {r r' : Reader} {op : Reader.Op} (h : r.step op = some r') :
    r'.received = r.received ++ match op with
      | .push bytes | .chunk bytes => bytes
      | _ => [] := by
  have hpop : ∀ (r : Reader) (wait : Bool), (r.popFrame wait).received = r.received := by
    intro r wait
    unfold Reader.popFrame
    split <;> rfl
  cases op <;> simp only [Reader.step, Option.ite_none_left_eq_some,
    Option.ite_none_right_eq_some, Option.some.injEq] at h <;> obtain ⟨-, rfl⟩ := h
  case push bytes => rfl
  case nextFrame => simp [hpop]
  case call => simp [hpop]
  case chunk bytes => exact hpop _ _
  case other => simp
  case cancel => simp

/-- A step of the reading end, which leaves the bytes on the way as `net`. -/
theorem Inv.read (h : Inv z c) {op : Reader.Op} {r : Reader} {net : Data}
    (hr : c.reader.step op = some r) (hnet : r.received ++ net = c.reader.received ++ c.net) :
    Inv z { c with reader := r, net := net } := by
  obtain ⟨done, hdone, hpart⟩ := h.written
  exact ⟨Reader.inv_step h.reader hr, ⟨done, hnet.trans hdone, hpart⟩, h.carriable⟩

theorem Inv.step {l : QuicLabel α} (h : Inv z c) (hC : SendsCarriable z c l)
    (hs : c.step z l = some c') : Inv z c' := by
  obtain ⟨done, hdone, hpart⟩ := h.written
  cases l with
  | send msg =>
    obtain ⟨hg, hs⟩ := Option.ite_none_left_eq_some.mp hs
    cases hs
    have hnone : c.writing = none := by
      rw [Bool.or_eq_true, not_or] at hg
      exact Option.not_isSome_iff_eq_none.mp hg.2
    rw [hnone] at hpart
    refine ⟨h.reader, ⟨[], ?_, hC msg rfl, ?_, rfl⟩, h.carriable⟩
    · rw [← show done = [] from hpart]
      exact hdone
    · simp [encodeFrame, frameOf, beBytes]
  | write n =>
    simp only [QuicStream.step] at hs
    split at hs
    · rename_i msg rest hw
      rw [hw] at hpart
      obtain ⟨hc, hne, heq⟩ := hpart
      split_ifs at hs with hlt hall
      · cases hs
        simp only [Bool.and_eq_true, decide_eq_true_eq] at hlt
        refine ⟨h.reader, ⟨done ++ rest.take n, ?_, hc, ?_, ?_⟩, h.carriable⟩
        · rw [← List.append_assoc, hdone, List.append_assoc]
        · rw [ne_eq, List.drop_eq_nil_iff]
          omega
        · rw [List.append_assoc, List.take_append_drop]
          exact heq
      · cases hs
        refine ⟨h.reader, ⟨[], ?_, rfl⟩, ?_⟩
        · rw [← List.append_assoc, hdone, List.append_assoc, heq, List.map_append, framed_append]
          simp [encodeFrame]
        · intro m hm
          rcases List.mem_append.mp hm with hm | hm
          · exact h.carriable m hm
          · rw [List.mem_singleton.mp hm]
            exact hc
    · cases hs
  | writeFailed =>
    obtain ⟨-, hs⟩ := Option.ite_none_right_eq_some.mp hs
    cases hs
    exact ⟨h.reader, h.written, h.carriable⟩
  | finish =>
    obtain ⟨-, hs⟩ := Option.ite_none_left_eq_some.mp hs
    cases hs
    exact ⟨h.reader, h.written, h.carriable⟩
  | read r =>
    cases r with
    | call =>
      obtain ⟨r, hr, rfl⟩ := Option.map_eq_some_iff.mp hs
      exact h.read hr (by rw [step_received hr]; simp)
    | chunk n =>
      obtain ⟨-, hs⟩ := Option.ite_none_right_eq_some.mp hs
      obtain ⟨r, hr, rfl⟩ := Option.map_eq_some_iff.mp hs
      refine h.read hr ?_
      rw [step_received hr, List.append_assoc]
      show c.reader.received ++ (c.net.take n ++ c.net.drop n) = _
      rw [List.take_append_drop]
    | other =>
      obtain ⟨r, hr, rfl⟩ := Option.map_eq_some_iff.mp hs
      exact h.read hr (by rw [step_received hr]; simp)
    | cancel =>
      obtain ⟨r, hr, rfl⟩ := Option.map_eq_some_iff.mp hs
      exact h.read hr (by rw [step_received hr]; simp)

theorem inv_under (h : (machine z).Under (SendsCarriable z) c) : Inv z c := by
  refine h.invariant ?_ fun _ _ _ hinv hC hs => hinv.step hC hs
  rintro c rfl
  exact ⟨⟨rfl, by simp [init, Reader.init]⟩, ⟨[], rfl, rfl⟩, by simp [init]⟩

/-! ### The channel -/

/-- The frames in the decoder and on the way. -/
def ahead (c : QuicStream α) : List Data := (refParse (c.reader.decoder.buf ++ c.net)).1

def direction (c : QuicStream α) : Direction α := ⟨c.reader.frames, c.ahead, c.sent⟩

theorem Inv.carries (h : Inv z c) : c.direction.Carries z := ⟨h.frames_eq, h.carriable⟩

/-- The message whose frame a step finishes. -/
def finished (c : QuicStream α) : QuicLabel α → Option α
  | .write n => c.writing.bind fun w => if n = w.2.length then some w.1 else none
  | _ => none

theorem moves_step {l : QuicLabel α} (hs : c.step z l = some c') :
    c.direction.Moves c'.direction (c.finished l) := by
  have hread : ∀ {d : QuicStream α} {op : Reader.Op}, d.readStep op = some c' →
      d.direction.Moves c'.direction none := by
    intro d op hd
    obtain ⟨r, hr, rfl⟩ := Option.map_eq_some_iff.mp hd
    rcases step_frames hr with hf | ⟨body, hf⟩
    · exact .idle hf rfl
    · exact .get body hf rfl
  cases l with
  | send msg =>
    obtain ⟨-, hs⟩ := Option.ite_none_left_eq_some.mp hs
    cases hs
    exact .idle rfl rfl
  | write n =>
    simp only [QuicStream.step] at hs
    split at hs
    · rename_i msg rest hw
      split_ifs at hs with hpart hall
      · cases hs
        simp only [Bool.and_eq_true, decide_eq_true_eq] at hpart
        rw [finished, hw, Option.bind_some, if_neg (Nat.ne_of_lt hpart.2)]
        exact .idle rfl rfl
      · cases hs
        simp only [Bool.and_eq_true, decide_eq_true_eq] at hall
        rw [finished, hw, Option.bind_some, if_pos hall.2]
        exact .put msg rfl rfl
    · cases hs
  | writeFailed =>
    obtain ⟨-, hs⟩ := Option.ite_none_right_eq_some.mp hs
    cases hs
    exact .idle rfl rfl
  | finish =>
    obtain ⟨-, hs⟩ := Option.ite_none_left_eq_some.mp hs
    cases hs
    exact .idle rfl rfl
  | read r =>
    cases r with
    | call => exact hread hs
    | chunk n =>
      have h := hread (Option.ite_none_right_eq_some.mp hs).2
      cases h with
      | idle ht hs => exact .idle ht hs
      | get body ht hs => exact .get body ht hs
    | other => exact hread hs
    | cancel => exact hread hs

/-- What a step shows. -/
def acts (z : Zstd) (c : QuicStream α) (l : QuicLabel α) : List (FifoLabel α) :=
  ((c.step z l).map fun c' => shown z (c.finished l) c.reader.frames c'.reader.frames).getD []

theorem queue_init : (init : QuicStream α).direction.queue z = [] := by
  show decoded z (refParse []).1 = []
  rw [refParse_of_not_complete fun h => absurd h.1 (by simp)]
  rfl

theorem refines_fifo [DecidableEq α] (z : Zstd) :
    Machine.Refines (machine z) (SendsCarriable z) (Fifo.machine α) (·.direction.queue z)
      (acts z) where
  init := by
    rintro c rfl
    exact queue_init
  step c l c' h hC hs := by
    have hinv := inv_under h
    have hacts : acts z c l = shown z (c.finished l) c.reader.frames c'.reader.frames := by
      rw [acts, show c.step z l = some c' from hs]
      rfl
    rw [hacts]
    exact Direction.run_shown (moves_step hs) hinv.carries (hinv.step hC hs).carries

/-- The messages whose sending has begun. -/
def begun (c : QuicStream α) : List α := c.sent ++ (c.writing.map Prod.fst).toList

theorem begun_step {l : QuicLabel α} (hs : c.step z l = some c') :
    c'.begun = c.begun ++ l.given?.toList := by
  have hread : ∀ {d : QuicStream α} {op : Reader.Op}, d.readStep op = some c' →
      c'.begun = d.begun := by
    intro d op hd
    obtain ⟨r, -, rfl⟩ := Option.map_eq_some_iff.mp hd
    rfl
  cases l with
  | send msg =>
    obtain ⟨hg, hs⟩ := Option.ite_none_left_eq_some.mp hs
    cases hs
    have hnone : c.writing = none := by
      rw [Bool.or_eq_true, not_or] at hg
      exact Option.not_isSome_iff_eq_none.mp hg.2
    simp [begun, hnone, QuicLabel.given?]
  | write n =>
    simp only [QuicStream.step] at hs
    split at hs
    · rename_i msg rest hw
      split_ifs at hs
      · cases hs
        simp [begun, hw, QuicLabel.given?]
      · cases hs
        simp [begun, hw, QuicLabel.given?]
    · cases hs
  | writeFailed =>
    obtain ⟨-, hs⟩ := Option.ite_none_right_eq_some.mp hs
    cases hs
    simp [begun, QuicLabel.given?]
  | finish =>
    obtain ⟨-, hs⟩ := Option.ite_none_left_eq_some.mp hs
    cases hs
    simp [begun, QuicLabel.given?]
  | read r =>
    rw [show (QuicLabel.read r : QuicLabel α).given? = none from rfl, Option.toList_none,
      List.append_nil]
    cases r with
    | call => exact hread hs
    | chunk n =>
      have h := hread (Option.ite_none_right_eq_some.mp hs).2
      exact h
    | other => exact hread hs
    | cancel => exact hread hs

theorem begun_run {ls : List (QuicLabel α)} (hr : (machine z).run c ls = some c') :
    c'.begun = c.begun ++ ls.filterMap QuicLabel.given? := by
  induction ls generalizing c with
  | nil =>
    cases hr
    simp
  | cons l ls ih =>
    obtain ⟨d, hd, hr⟩ := Option.bind_eq_some_iff.mp hr
    rw [ih hr, begun_step hd, List.append_assoc]
    cases hg : l.given? <;> simp [hg]

/-! ### Nothing gets stuck -/

/-- What is in the decoder and on the way is the frames still to be taken, and a part of one. -/
theorem Inv.rest_eq (h : Inv z c) : ∃ bodies done, (∀ b ∈ bodies, b.length ≤ MAX_FRAME) ∧
    c.reader.decoder.buf ++ c.net = framed bodies ++ done ∧ Partly z c.writing done := by
  obtain ⟨done, hdone, hpart⟩ := h.written
  refine ⟨(refParse (c.reader.decoder.buf ++ c.net)).1, done, fun b hb => ?_, ?_, hpart⟩
  · have hmem : b ∈ c.sent.map (encode z) := h.frames_eq ▸ List.mem_append_right _ hb
    obtain ⟨msg, hmsg, rfl⟩ := List.mem_map.mp hmem
    exact (h.carriable msg hmsg).frame
  · rw [h.reader.split, ← h.frames_eq, framed_append, List.append_assoc, List.append_assoc] at hdone
    exact List.append_cancel_left hdone

/-- The decoder never sees a header that is too large. -/
theorem Inv.no_oversized (h : Inv z c) (e : OversizedFrame) :
    c.reader.decoder.nextFrame.1 ≠ .error e := by
  obtain ⟨bodies, done, hsmall, heq, hpart⟩ := h.rest_eq
  intro he
  rcases c.reader.decoder.nextFrame_cases with ⟨_, _, _, _, hn⟩ | ⟨h4, hmax, -⟩ | ⟨-, -, hn⟩
  · rw [hn] at he
    cases he
  · have hhead : header c.reader.decoder.buf = header (framed bodies ++ done) := by
      rw [← heq]
      unfold header
      rw [List.take_append_of_le_length h4]
    cases bodies with
    | cons body bodies =>
      rw [hhead, framed_cons, List.append_assoc,
        header_frameOf_of_le (hsmall body (by simp))] at hmax
      exact absurd (hsmall body (by simp)) (by omega)
    | nil =>
      rw [framed_nil, List.nil_append] at hhead heq
      have hlen : 4 ≤ done.length := by
        rw [← heq, List.length_append]
        omega
      cases hw : c.writing with
      | none =>
        rw [hw] at hpart
        rw [show done = [] from hpart] at hlen
        exact absurd hlen (by simp)
      | some w =>
        rw [hw] at hpart
        obtain ⟨hc, -, hframe⟩ := hpart
        have hdone : header done = header (encodeFrame z w.1 ++ []) := by
          rw [List.append_nil, ← hframe]
          unfold header
          rw [List.take_append_of_le_length hlen]
        rw [hhead, hdone, encodeFrame, header_frameOf_of_le hc.frame] at hmax
        exact absurd hc.frame (by omega)
  · rw [hn] at he
    cases he

/-- Looking for a frame hands over the one in the buffer, or finds none there. -/
theorem Inv.popFrame_cases (h : Inv z c) (wait : Bool) :
    Complete c.reader.decoder.buf ∧
        (∃ body, (c.reader.popFrame wait).frames = c.reader.frames ++ [body]) ∨
      ¬ Complete c.reader.decoder.buf ∧
        c.reader.popFrame wait = { c.reader with pending := wait } := by
  rcases c.reader.decoder.nextFrame_cases with ⟨body, rest, hb, hbuf, hn⟩ | ⟨-, -, hn⟩ | ⟨hc, -, hn⟩
  · exact .inl ⟨hbuf ▸ complete_frameOf hb rest, body, by rw [Reader.popFrame, hn]⟩
  · exact absurd (by rw [hn]) (h.no_oversized _)
  · exact .inr ⟨hc, by rw [Reader.popFrame, hn]⟩

variable (z) in
/-- Calls of `next` alone lead from one state to another. -/
def Reads (c c' : QuicStream α) : Prop :=
  ∃ rs : List QuicRead, (machine z).run c (rs.map .read) = some c'

theorem Reads.trans {c'' : QuicStream α} (h : Reads z c c') (h' : Reads z c' c'') :
    Reads z c c'' := by
  obtain ⟨rs, hr⟩ := h
  obtain ⟨rs', hr'⟩ := h'
  exact ⟨rs ++ rs', by rw [List.map_append]; exact Machine.run_append hr hr'⟩

theorem Reads.of_step {r : QuicRead} (h : c.step z (.read r) = some c') : Reads z c c' :=
  ⟨[r], Machine.run_cons h rfl⟩

theorem Reads.call (hp : c.reader.pending = false) :
    Reads z c { c with reader := c.reader.popFrame true } :=
  .of_step (r := .call) (by simp [QuicStream.step, readStep, Reader.step, hp])

theorem Reads.chunk {n : Nat} (hp : c.reader.pending = true) (hn : 0 < n) (hchunk : n ≤ CHUNK)
    (hnet : n ≤ c.net.length) : Reads z c { c with
      reader := (c.reader.pushBytes (c.net.take n)).popFrame true
      net := c.net.drop n } :=
  .of_step (r := .chunk n) (by simp [QuicStream.step, readStep, Reader.step, hp, hn, hchunk, hnet])

theorem Reads.idle (c : QuicStream α) :
    Reads z c { c with reader := { c.reader with pending := false } } := by
  by_cases hp : c.reader.pending = true
  · exact .of_step (r := .cancel) (by simp [QuicStream.step, readStep, Reader.step, hp])
  · rw [Bool.not_eq_true] at hp
    exact ⟨[], by rw [← hp]; rfl⟩

theorem Reads.waiting (h : Inv z c) (hc : ¬ Complete c.reader.decoder.buf) :
    Reads z c { c with reader := { c.reader with pending := true } } := by
  by_cases hp : c.reader.pending = true
  · exact ⟨[], by rw [← hp]; rfl⟩
  · rcases h.popFrame_cases true with ⟨hc', -⟩ | ⟨-, hpop⟩
    · exact absurd hc' hc
    · rw [← hpop]
      exact .call ((Bool.not_eq_true _).mp hp)

theorem Reads.inv (hr : Reads z c c') (h : Inv z c) : Inv z c' ∧ c'.sent = c.sent := by
  obtain ⟨rs, hr⟩ := hr
  induction rs generalizing c with
  | nil =>
    cases hr
    exact ⟨h, rfl⟩
  | cons r rs ih =>
    obtain ⟨d, hd, hr⟩ := Option.bind_eq_some_iff.mp hr
    obtain ⟨hinv, hsent⟩ := ih (h.step (fun _ heq => by cases heq) hd) hr
    refine ⟨hinv, hsent.trans ?_⟩
    cases moves_step hd with
    | idle _ hs => exact hs
    | get _ _ hs => exact hs

theorem Inv.pushed (h : Inv z c) (n : Nat) :
    Inv z { c with reader := c.reader.pushBytes (c.net.take n), net := c.net.drop n } := by
  obtain ⟨done, hdone, hpart⟩ := h.written
  refine ⟨Reader.inv_pushBytes h.reader _, ⟨done, ?_, hpart⟩, h.carriable⟩
  rw [← hdone]
  simp [Reader.pushBytes]

/-- With no frame in the buffer, the next chunk is read, and may complete one. -/
theorem Inv.exists_chunk (h : Inv z c) (hc : ¬ Complete c.reader.decoder.buf) (hnet : c.net ≠ []) :
    ∃ d, Reads z c d ∧ d.net.length < c.net.length ∧
      ((∃ body, d.reader.frames = c.reader.frames ++ [body]) ∨
        d.reader.frames = c.reader.frames) := by
  have hpos := List.length_pos_iff.mpr hnet
  have hchunk : 0 < CHUNK := by decide
  let n := min c.net.length CHUNK
  have hread : Reads z c { c with
      reader := (c.reader.pushBytes (c.net.take n)).popFrame true, net := c.net.drop n } :=
    (Reads.waiting h hc).trans (.chunk (n := n) rfl (by omega) (by omega) (by simp [n]))
  refine ⟨_, hread, by simp [n]; omega, ?_⟩
  rcases (h.pushed n).popFrame_cases true with ⟨-, hbody⟩ | ⟨-, hpop⟩
  · exact .inl hbody
  · have hframes := congrArg Reader.frames hpop
    exact .inr hframes

/-- Calls of `next` get the frame that is ahead. -/
theorem Inv.exists_next (h : Inv z c) (hne : c.ahead ≠ []) :
    ∃ c' body, Reads z c c' ∧ c'.reader.frames = c.reader.frames ++ [body] := by
  induction hlen : c.net.length using Nat.strong_induction_on generalizing c with
  | h len ih =>
    by_cases hc : Complete c.reader.decoder.buf
    · -- Whatever happened to the last call, the next one finds the frame in the buffer.
      have hidle := (Reads.idle (z := z) c).inv h
      rcases hidle.1.popFrame_cases true with ⟨-, body, hbody⟩ | ⟨hnot, -⟩
      · exact ⟨_, body, (Reads.idle c).trans (.call rfl), hbody⟩
      · exact absurd hc hnot
    · have hnet : c.net ≠ [] := by
        intro hnil
        rw [ahead, hnil, List.append_nil, refParse_of_not_complete hc] at hne
        exact hne rfl
      obtain ⟨d, hread, hlt, ⟨body, hbody⟩ | hsame⟩ := h.exists_chunk hc hnet
      · exact ⟨d, body, hread, hbody⟩
      · obtain ⟨hinv, hsent⟩ := hread.inv h
        have hahead : c.ahead = d.ahead := h.carries.ahead_eq hinv.carries []
          (hsame.trans (List.append_nil _).symm) hsent
        obtain ⟨c', body, hread', hbody⟩ := ih _ (hlen ▸ hlt) hinv (hahead ▸ hne) rfl
        exact ⟨c', body, hread.trans hread', hsame ▸ hbody⟩

/-- Calls of `next` get all the frames that are ahead. -/
theorem Inv.exists_drained (h : Inv z c) : ∃ c', Reads z c c' ∧ c'.ahead = [] := by
  induction hlen : c.ahead.length generalizing c with
  | zero => exact ⟨c, ⟨[], rfl⟩, List.length_eq_zero_iff.mp hlen⟩
  | succ len ih =>
    obtain ⟨d, body, hread, hbody⟩ := h.exists_next (by rintro hnil; simp [hnil] at hlen)
    obtain ⟨hinv, hsent⟩ := hread.inv h
    have hahead := h.carries.ahead_eq hinv.carries [body] hbody hsent
    have hrest : d.ahead.length = len := by
      simpa [direction, hlen] using congrArg List.length hahead.symm
    obtain ⟨c', hread', hnil⟩ := ih hinv hrest
    exact ⟨c', hread.trans hread', hnil⟩

/-- And so they get every message that was sent. -/
theorem Inv.exists_received (h : Inv z c) : ∃ (rs : List QuicRead) (c' : QuicStream α),
    (machine z).run c (rs.map .read) = some c' ∧
    c'.reader.frames.map (decode z) = c.sent.map .ok := by
  obtain ⟨c', hread, hnil⟩ := h.exists_drained
  obtain ⟨hinv, hsent⟩ := hread.inv h
  obtain ⟨rs, hr⟩ := hread
  exact ⟨rs, c', hr, hsent ▸ hinv.carries.received hnil⟩

end QuicStream

/-! ## A WebSocket -/

/-- What the library delivers. -/
inductive WsMessage where
  | binary (bytes : Data)
  | ping
  | pong
  | text
  | close
  deriving DecidableEq

def WsMessage.binary? : WsMessage → Option Data
  | .binary bytes => some bytes
  | _ => none

inductive WsLabel (α : Type) where
  | send (msg : α)
  | sendFailed
  /-- A message that carries none of ours. -/
  | control (m : WsMessage)
  | next
  deriving DecidableEq

/-- The message given to `send`, if it was sent. -/
def WsLabel.given? {α : Type} : WsLabel α → Option α
  | .send msg => some msg
  | _ => none

/-- One direction of a WebSocket connection. -/
structure WsStream (α : Type) where
  net : List WsMessage
  /-- Sending has failed, or a close was sent; the library sends nothing more. -/
  shut : Bool
  /-- A close was taken. -/
  ended : Bool
  frames : List Data
  sent : List α

namespace WsStream

variable {α : Type} [Postcard α] (z : Zstd)

def init : WsStream α := ⟨[], false, false, [], []⟩

def step (c : WsStream α) : WsLabel α → Option (WsStream α)
  | .send msg =>
    if c.shut then none
    else some { c with net := c.net ++ [.binary (encode z msg)], sent := c.sent ++ [msg] }
  | .sendFailed => if c.shut then none else some { c with shut := true }
  | .control m =>
    if c.shut || m.binary?.isSome then none
    else some { c with net := c.net ++ [m], shut := m = .close }
  | .next =>
    if c.ended then none
    else match c.net with
      | [] => none
      | .binary bytes :: rest => some { c with net := rest, frames := c.frames ++ [bytes] }
      | .close :: rest => some { c with net := rest, ended := true }
      -- Pings, pongs and text are skipped.
      | _ :: rest => some { c with net := rest }

def machine : Machine (WsStream α) (WsLabel α) := ⟨(· = init), step z⟩

def SendsCarriable (_ : WsStream α) (l : WsLabel α) : Prop := ∀ msg, l = .send msg → Carriable z msg

/-- The frames taken and those on the way are those of the messages sent, and a close is the last
thing on the way. -/
structure Inv (c : WsStream α) : Prop where
  frames_eq : c.frames ++ c.net.filterMap WsMessage.binary? = c.sent.map (encode z)
  carriable : ∀ msg ∈ c.sent, Carriable z msg
  shut : .close ∈ c.net ∨ c.ended = true → c.shut = true
  last : .close ∉ c.net.dropLast
  ended : c.ended = true → c.net = []

def direction (c : WsStream α) : Direction α :=
  ⟨c.frames, c.net.filterMap WsMessage.binary?, c.sent⟩

variable {z} {c c' : WsStream α}

theorem Inv.carries (h : Inv z c) : c.direction.Carries z := ⟨h.frames_eq, h.carriable⟩

/-- Before a close was sent, none is on the way. -/
theorem Inv.not_close (h : Inv z c) (hshut : c.shut = false) :
    .close ∉ c.net ∧ c.ended = false := by
  constructor
  · intro hmem
    rw [h.shut (.inl hmem)] at hshut
    cases hshut
  · refine Bool.eq_false_iff.mpr fun hended => ?_
    rw [h.shut (.inr hended)] at hshut
    cases hshut

theorem Inv.taken (h : Inv z c) {m : WsMessage} {rest : List WsMessage} {frames : List Data}
    (hnet : c.net = m :: rest) (hframes : frames = c.frames ++ m.binary?.toList) :
    Inv z { c with net := rest, frames := frames, ended := m = .close } := by
  have hlast := h.last
  rw [hnet] at hlast
  refine ⟨?_, h.carriable, ?_, ?_, ?_⟩
  · rw [← h.frames_eq, hframes, hnet]
    cases hm : m.binary? <;> simp [hm]
  · intro hc
    refine h.shut (.inl ?_)
    rcases hc with hmem | hclose
    · exact hnet ▸ List.mem_cons_of_mem _ hmem
    · rw [hnet, of_decide_eq_true hclose]
      exact List.mem_cons_self
  · intro hmem
    cases rest with
    | nil => cases hmem
    | cons m' rest => exact hlast (List.mem_cons_of_mem _ hmem)
  · intro hclose
    cases rest with
    | nil => rfl
    | cons m' rest =>
      rw [of_decide_eq_true hclose] at hlast
      exact absurd List.mem_cons_self hlast

theorem Inv.step {l : WsLabel α} (h : Inv z c) (hC : SendsCarriable z c l)
    (hs : c.step z l = some c') : Inv z c' ∧ c.direction.Moves c'.direction l.given? := by
  cases l with
  | send msg =>
    obtain ⟨hshut, hs⟩ := Option.ite_none_left_eq_some.mp hs
    cases hs
    obtain ⟨hclose, hended⟩ := h.not_close ((Bool.not_eq_true _).mp hshut)
    refine ⟨⟨?_, fun m hm => ?_, ?_, ?_, ?_⟩, .put msg rfl rfl⟩
    · simp [← h.frames_eq, List.filterMap_append, WsMessage.binary?]
    · rcases List.mem_append.mp hm with hm | hm
      · exact h.carriable m hm
      · exact List.mem_singleton.mp hm ▸ hC msg rfl
    · simp [hclose, hended]
    · simpa using hclose
    · simp [hended]
  | sendFailed =>
    obtain ⟨-, hs⟩ := Option.ite_none_left_eq_some.mp hs
    cases hs
    exact ⟨⟨h.frames_eq, h.carriable, fun _ => rfl, h.last, h.ended⟩, .idle rfl rfl⟩
  | control m =>
    obtain ⟨hm, hs⟩ := Option.ite_none_left_eq_some.mp hs
    cases hs
    rw [Bool.or_eq_true, not_or, Option.not_isSome_iff_eq_none] at hm
    obtain ⟨hclose, hended⟩ := h.not_close ((Bool.not_eq_true _).mp hm.1)
    refine ⟨⟨?_, h.carriable, ?_, ?_, ?_⟩, .idle rfl rfl⟩
    · simp [← h.frames_eq, List.filterMap_append, hm.2]
    · simp [hclose, hended, eq_comm]
    · simpa using hclose
    · simp [hended]
  | next =>
    obtain ⟨hended, hs⟩ := Option.ite_none_left_eq_some.mp hs
    rw [Bool.not_eq_true] at hended
    cases hnet : c.net with
    | nil =>
      rw [hnet] at hs
      cases hs
    | cons m rest =>
      rw [hnet] at hs
      have htaken := h.taken hnet rfl
      cases m with
      | binary bytes =>
        cases hs
        exact ⟨by simpa [hended, WsMessage.binary?] using htaken, .get bytes rfl rfl⟩
      | close =>
        cases hs
        exact ⟨by simpa [WsMessage.binary?] using htaken, .idle rfl rfl⟩
      | _ =>
        cases hs
        exact ⟨by simpa [hended, WsMessage.binary?] using htaken, .idle rfl rfl⟩

theorem inv_under (h : (machine z).Under (SendsCarriable z) c) : Inv z c := by
  refine h.invariant ?_ fun _ _ _ hinv hC hs => (hinv.step hC hs).1
  rintro c rfl
  exact ⟨rfl, by simp [init], by simp [init], by simp [init], by simp [init]⟩

def acts (z : Zstd) (c : WsStream α) (l : WsLabel α) : List (FifoLabel α) :=
  ((c.step z l).map fun c' => shown z l.given? c.frames c'.frames).getD []

theorem refines_fifo [DecidableEq α] (z : Zstd) :
    Machine.Refines (machine z) (SendsCarriable z) (Fifo.machine α) (·.direction.queue z)
      (acts z) where
  init := by
    rintro c rfl
    rfl
  step c l c' h hC hs := by
    have hinv := inv_under h
    obtain ⟨hinv', hmoves⟩ := hinv.step hC hs
    have hacts : acts z c l = shown z l.given? c.frames c'.frames := by
      rw [acts, show c.step z l = some c' from hs]
      rfl
    rw [hacts]
    exact Direction.run_shown hmoves hinv.carries hinv'.carries

theorem sent_step {l : WsLabel α} (hs : c.step z l = some c') :
    c'.sent = c.sent ++ l.given?.toList := by
  cases l with
  | send =>
    obtain ⟨-, hs⟩ := Option.ite_none_left_eq_some.mp hs
    cases hs
    rfl
  | sendFailed =>
    obtain ⟨-, hs⟩ := Option.ite_none_left_eq_some.mp hs
    cases hs
    exact (List.append_nil _).symm
  | control =>
    obtain ⟨-, hs⟩ := Option.ite_none_left_eq_some.mp hs
    cases hs
    exact (List.append_nil _).symm
  | next =>
    obtain ⟨-, hs⟩ := Option.ite_none_left_eq_some.mp hs
    rw [show (WsLabel.next : WsLabel α).given? = none from rfl, Option.toList_none, List.append_nil]
    split at hs <;> cases hs <;> rfl

theorem sent_run {ls : List (WsLabel α)} (hr : (machine z).run c ls = some c') :
    c'.sent = c.sent ++ ls.filterMap WsLabel.given? := by
  induction ls generalizing c with
  | nil =>
    cases hr
    simp
  | cons l ls ih =>
    obtain ⟨d, hd, hr⟩ := Option.bind_eq_some_iff.mp hr
    rw [ih hr, sent_step hd, List.append_assoc]
    cases hg : l.given? <;> simp [hg]

/-- Calls of `next` get everything that is on the way. -/
theorem Inv.exists_received (h : Inv z c) : ∃ (n : Nat) (c' : WsStream α),
    (machine z).run c (List.replicate n .next) = some c' ∧
    c'.frames.map (decode z) = c.sent.map .ok := by
  induction hnet : c.net generalizing c with
  | nil => exact ⟨0, c, rfl, h.carries.received (by rw [direction, hnet]; rfl)⟩
  | cons m rest ih =>
    have hended : c.ended = false := by
      refine Bool.eq_false_iff.mpr fun hended => ?_
      rw [h.ended hended] at hnet
      cases hnet
    obtain ⟨d, hd, hrest⟩ : ∃ d, c.step z .next = some d ∧ d.net = rest := by
      cases m <;> simp [WsStream.step, hended, hnet]
    have hsent : d.sent = c.sent := (sent_step hd).trans (List.append_nil _)
    obtain ⟨n, c', hr, hframes⟩ := ih (h.step (fun _ heq => by cases heq) hd).1 hrest
    exact ⟨n + 1, c', Machine.run_cons hd hr, hsent ▸ hframes⟩

end WsStream

/-! ## Both transports -/

/-- **In order, unaltered, and never out of reach.** A run of either transport is one of the channel
of messages. The receiver has taken the first messages sent, the wire carries the others, and calls
of `next` get them, those before a close too. On a QUIC stream no header is ever too large. -/
theorem transports_deliver {α : Type} [Postcard α] [DecidableEq α] (z : Zstd) :
    (∀ (ls : List (QuicLabel α)) c, (QuicStream.machine z).run .init ls = some c →
      (∀ msg, .send msg ∈ ls → Carriable z msg) →
      (Fifo.machine α).run [] ((QuicStream.machine z).acted (QuicStream.acts z) .init ls) =
        some (c.direction.queue z) ∧
      ls.filterMap QuicLabel.given? = c.sent ++ (c.writing.map Prod.fst).toList ∧
      (c.reader.frames ++ c.ahead).map (decode z) = c.sent.map .ok ∧
      (∀ e, c.reader.decoder.nextFrame.1 ≠ .error e) ∧
      ∃ (rs : List QuicRead) (c' : QuicStream α),
        (QuicStream.machine z).run c (rs.map .read) = some c' ∧
        c'.reader.frames.map (decode z) = c.sent.map .ok) ∧
    ∀ (ls : List (WsLabel α)) c, (WsStream.machine z).run .init ls = some c →
      (∀ msg, .send msg ∈ ls → Carriable z msg) →
      (Fifo.machine α).run [] ((WsStream.machine z).acted (WsStream.acts z) .init ls) =
        some (c.direction.queue z) ∧
      ls.filterMap WsLabel.given? = c.sent ∧
      (c.frames ++ c.net.filterMap WsMessage.binary?).map (decode z) = c.sent.map .ok ∧
      ∃ (n : Nat) (c' : WsStream α),
        (WsStream.machine z).run c (List.replicate n .next) = some c' ∧
        c'.frames.map (decode z) = c.sent.map .ok := by
  refine ⟨fun ls c hr hC => ?_, fun ls c hr hC => ?_⟩
  · have hls : ∀ c : QuicStream α, ∀ l ∈ ls, QuicStream.SendsCarriable z c l :=
      fun _ l hl msg heq => hC msg (heq ▸ hl)
    have hinv := QuicStream.inv_under (Machine.under_of_run (.init rfl) hls hr)
    have hfifo := (QuicStream.refines_fifo z).run (.init rfl) hls hr
    rw [QuicStream.queue_init] at hfifo
    exact ⟨hfifo, (QuicStream.begun_run hr).symm, hinv.carries.delivered, hinv.no_oversized,
      hinv.exists_received⟩
  · have hls : ∀ c : WsStream α, ∀ l ∈ ls, WsStream.SendsCarriable z c l :=
      fun _ l hl msg heq => hC msg (heq ▸ hl)
    have hinv := WsStream.inv_under (Machine.under_of_run (.init rfl) hls hr)
    exact ⟨(WsStream.refines_fifo z).run (.init rfl) hls hr, (WsStream.sent_run hr).symm,
      hinv.carries.delivered, hinv.exists_received⟩

/-- A call of `next` is dropped after three bytes of a frame, and the next one gets the rest
together with the first bytes of another frame. -/
def tornRead : List (QuicLabel (ChannelMessage UInt64)) :=
  [.send (.ack 5), .write 3, .read .call, .read (.chunk 3), .read .cancel, .write 4, .send (.ack 6),
   .write 2, .read .call, .read (.chunk 6)]

theorem carriable_tornRead :
    ∀ msg, .send msg ∈ tornRead → Carriable Zstd.stored msg := by
  intro msg h
  refine ChannelMessage.Sendable.carriable ?_
  simp only [tornRead, List.mem_cons, QuicLabel.send.injEq, reduceCtorEq, false_or, or_false,
    List.not_mem_nil] at h
  rcases h with rfl | rfl
  · trivial
  · trivial

def afterTornRead : QuicStream (ChannelMessage UInt64) :=
  ((QuicStream.machine Zstd.stored).run .init tornRead).get (by decide +kernel)

/-- Two messages with a ping between them and a close behind them. The first one is received. -/
def closedBehind : List (WsLabel (ChannelMessage UInt64)) :=
  [.send (.ack 5), .control .ping, .send (.ack 6), .control .close, .next]

theorem carriable_closedBehind :
    ∀ msg, .send msg ∈ closedBehind → Carriable Zstd.stored msg := by
  intro msg h
  refine ChannelMessage.Sendable.carriable ?_
  simp only [closedBehind, List.mem_cons, WsLabel.send.injEq, reduceCtorEq, false_or, or_false,
    List.not_mem_nil] at h
  rcases h with rfl | rfl
  · trivial
  · trivial

def afterClosedBehind : WsStream (ChannelMessage UInt64) :=
  ((WsStream.machine Zstd.stored).run .init closedBehind).get (by decide +kernel)

theorem tornRead_delivers :
    (afterTornRead.reader.frames.map (decode Zstd.stored) = [.ok (.ack 5 : ChannelMessage UInt64)] ∧
      afterTornRead.writing.map Prod.fst = some (.ack 6) ∧
      ∃ (rs : List QuicRead) (c' : QuicStream (ChannelMessage UInt64)),
        (QuicStream.machine Zstd.stored).run afterTornRead (rs.map .read) = some c' ∧
        c'.reader.frames.map (decode Zstd.stored) = afterTornRead.sent.map .ok) ∧
    afterClosedBehind.frames.map (decode Zstd.stored) =
        [.ok (.ack 5 : ChannelMessage UInt64)] ∧
      afterClosedBehind.sent = [.ack 5, .ack 6] ∧
      ∃ (n : Nat) (c' : WsStream (ChannelMessage UInt64)),
        (WsStream.machine Zstd.stored).run afterClosedBehind (List.replicate n .next) = some c' ∧
        c'.frames.map (decode Zstd.stored) = afterClosedBehind.sent.map .ok := by
  have hboth := transports_deliver (α := ChannelMessage UInt64) Zstd.stored
  have hquic := hboth.1 tornRead afterTornRead (Option.some_get _).symm carriable_tornRead
  have hws := hboth.2 closedBehind afterClosedBehind (Option.some_get _).symm
    carriable_closedBehind
  exact ⟨⟨by decide +kernel, by decide +kernel, hquic.2.2.2.2⟩, by decide +kernel,
    by decide +kernel, hws.2.2.2⟩

end HerdrEternal
