import HerdrEternal.Lib.Bytes
import HerdrEternal.Lib.Machine
import HerdrEternal.Proto.Message

/-!
# Reassembling length-prefixed frames

On a byte stream (QUIC) every encoded message is preceded by its length as a big-endian `u32`.
`FrameDecoder` collects the chunks that arrive and pops complete frames.

**The reference** (`refParse`) reads the whole byte stream at once: a header, then that many
bytes, again and again, until what is left is not a complete frame or announces one that is too
large.

**The readers.** `Conn::next` and `Channel::next` alternate between popping a frame and awaiting
a chunk, and a `select!` loop may drop them at that await. `Reader` runs any interleaving of
their steps, of cancellations and of direct calls of `push` and `next_frame`.

Main result: `frame_decoder_refines_reference`.
-/

namespace HerdrEternal

open Bytes

/-- Upper bound for a single stream frame. -/
def MAX_FRAME : Nat := 1024 * 1024

/-- A payload behind its header. The length is cast to `u32`. -/
def frameOf (body : Data) : Data := beBytes 4 body.length ++ body

/-- Frames one after the other, as they travel. -/
def framed (bodies : List Data) : Data := bodies.flatMap frameOf

@[simp] theorem framed_nil : framed [] = [] := rfl

@[simp] theorem framed_cons (body : Data) (bodies : List Data) :
    framed (body :: bodies) = frameOf body ++ framed bodies := rfl

theorem framed_append (as bs : List Data) : framed (as ++ bs) = framed as ++ framed bs :=
  List.flatMap_append

@[simp] theorem length_frameOf (body : Data) : (frameOf body).length = 4 + body.length := by
  simp [frameOf]

/-- The value of the first four bytes. -/
def header (bs : Data) : Nat := beValue (bs.take 4)

theorem header_frameOf (body rest : Data) :
    header (frameOf body ++ rest) = body.length % 2 ^ 32 := by
  have h : (frameOf body ++ rest).take 4 = beBytes 4 body.length := by
    rw [frameOf, List.append_assoc, List.take_append_of_le_length (by simp)]
    exact List.take_of_length_le (by simp)
  rw [header, h, beValue_beBytes]
  rfl

/-! ## The decoder -/

structure OversizedFrame where
  len : Nat
  deriving DecidableEq

/-- Reassembles length-prefixed frames from a byte stream. -/
structure FrameDecoder where
  buf : Data
  deriving DecidableEq

namespace FrameDecoder

def new : FrameDecoder := ⟨[]⟩

def push (d : FrameDecoder) (bytes : Data) : FrameDecoder := ⟨d.buf ++ bytes⟩

/-- Pops the next complete frame, if buffered. -/
def nextFrame (d : FrameDecoder) : Except OversizedFrame (Option Data) × FrameDecoder :=
  if d.buf.length < 4 then (.ok none, d)
  else if MAX_FRAME < header d.buf then (.error ⟨header d.buf⟩, d)
  else if d.buf.length < 4 + header d.buf then (.ok none, d)
  else (.ok (some ((d.buf.take (4 + header d.buf)).drop 4)), ⟨d.buf.drop (4 + header d.buf)⟩)

end FrameDecoder

/-! ## The reference parse -/

/-- `bs` starts with a header and the whole frame it announces, of an allowed size. -/
def Complete (bs : Data) : Prop :=
  4 ≤ bs.length ∧ header bs ≤ MAX_FRAME ∧ 4 + header bs ≤ bs.length

instance (bs : Data) : Decidable (Complete bs) := by unfold Complete; infer_instance

/-- The frames of a byte stream, and what is left when no complete frame of an allowed size
comes next. -/
def refParse (bs : Data) : List Data × Data :=
  if Complete bs then
    let next := refParse (bs.drop (4 + header bs))
    ((bs.drop 4).take (header bs) :: next.1, next.2)
  else ([], bs)
termination_by bs.length
decreasing_by
  rename_i h
  obtain ⟨h4, -, -⟩ := h
  simp only [List.length_drop]
  omega

theorem refParse_of_not_complete {bs : Data} (h : ¬ Complete bs) : refParse bs = ([], bs) := by
  rw [refParse, if_neg h]

/-- A stream that starts with a complete frame is that frame and the rest. -/
theorem Complete.eq_frameOf {bs : Data} (h : Complete bs) :
    bs = frameOf ((bs.drop 4).take (header bs)) ++ bs.drop (4 + header bs) := by
  obtain ⟨h4, -, hlen⟩ := h
  have hbody : ((bs.drop 4).take (header bs)).length = header bs := by
    simp only [List.length_take, List.length_drop]
    omega
  have hhead : beBytes 4 (header bs) = bs.take 4 := by
    have := beBytes_beValue (bs.take 4)
    rwa [List.length_take, Nat.min_eq_left h4] at this
  rw [frameOf, hbody, hhead, List.append_assoc, ← List.drop_drop, List.take_append_drop,
    List.take_append_drop]

theorem header_frameOf_of_le {body : Data} (h : body.length ≤ MAX_FRAME) (rest : Data) :
    header (frameOf body ++ rest) = body.length := by
  rw [header_frameOf]
  exact Nat.mod_eq_of_lt (lt_of_le_of_lt h (by decide))

theorem complete_frameOf {body : Data} (h : body.length ≤ MAX_FRAME) (rest : Data) :
    Complete (frameOf body ++ rest) := by
  have hh := header_frameOf_of_le h rest
  refine ⟨by simp; omega, hh ▸ h, ?_⟩
  rw [hh]
  simp

/-- Splitting a stream behind a header and `body`. -/
theorem split_frameOf {body : Data} (h : body.length ≤ MAX_FRAME) (rest : Data) :
    ((frameOf body ++ rest).drop 4).take (header (frameOf body ++ rest)) = body ∧
      (frameOf body ++ rest).drop (4 + header (frameOf body ++ rest)) = rest := by
  rw [header_frameOf_of_le h]
  constructor
  · rw [frameOf, List.append_assoc, List.drop_left' (by simp), List.take_left]
  · exact List.drop_left' (by simp)

theorem refParse_frameOf {body : Data} (h : body.length ≤ MAX_FRAME) (rest : Data) :
    refParse (frameOf body ++ rest) = (body :: (refParse rest).1, (refParse rest).2) := by
  obtain ⟨hbody, hrest⟩ := split_frameOf h rest
  rw [refParse, if_pos (complete_frameOf h rest), hbody, hrest]

/-- Frames in front of a stream are the first frames of its parse. -/
theorem refParse_framed {bodies : List Data} (h : ∀ b ∈ bodies, b.length ≤ MAX_FRAME)
    (rest : Data) : refParse (framed bodies ++ rest) =
      (bodies ++ (refParse rest).1, (refParse rest).2) := by
  induction bodies with
  | nil => rfl
  | cons body bodies ih =>
    rw [framed_cons, List.append_assoc, refParse_frameOf (h body (by simp)),
      ih fun b hb => h b (by simp [hb])]
    rfl

/-! ## One call of `next_frame` -/

namespace FrameDecoder

/-- **The cases of `next_frame`**: a complete frame is popped; an oversized header is reported
and stays; anything else waits for more bytes. -/
theorem nextFrame_cases (d : FrameDecoder) :
    (∃ body rest, body.length ≤ MAX_FRAME ∧ d.buf = frameOf body ++ rest ∧
      d.nextFrame = (.ok (some body), ⟨rest⟩)) ∨
    (4 ≤ d.buf.length ∧ MAX_FRAME < header d.buf ∧
      d.nextFrame = (.error ⟨header d.buf⟩, d)) ∨
    (¬ Complete d.buf ∧ ¬ (4 ≤ d.buf.length ∧ MAX_FRAME < header d.buf) ∧
      d.nextFrame = (.ok none, d)) := by
  unfold nextFrame
  split_ifs with h4 hmax hlen
  · exact .inr (.inr ⟨fun h => by have := h.1; omega, fun h => by omega, rfl⟩)
  · exact .inr (.inl ⟨by omega, hmax, rfl⟩)
  · exact .inr (.inr ⟨fun h => by have := h.2.2; omega, fun h => by omega, rfl⟩)
  · have hc : Complete d.buf := ⟨by omega, by omega, by omega⟩
    refine .inl ⟨(d.buf.drop 4).take (header d.buf), d.buf.drop (4 + header d.buf), ?_,
      hc.eq_frameOf, ?_⟩
    · exact le_trans (List.length_take_le _ _) hc.2.1
    · rw [List.drop_take, Nat.add_sub_cancel_left]

/-- Pop frames until none is complete. -/
def drain (d : FrameDecoder) : List Data × FrameDecoder :=
  match _h : d.nextFrame with
  | (.ok (some body), d') => (body :: (drain d').1, (drain d').2)
  | _ => ([], d)
termination_by d.buf.length
decreasing_by
  rcases nextFrame_cases d with ⟨b, rest, -, hbuf, hn⟩ | ⟨-, -, hn⟩ | ⟨-, -, hn⟩
  · rw [hn] at _h
    cases _h
    simp [hbuf]
  · rw [hn] at _h; cases _h
  · rw [hn] at _h; cases _h

/-- **Draining is the reference parse of the buffer.** -/
theorem drain_eq_refParse (d : FrameDecoder) :
    d.drain = ((refParse d.buf).1, ⟨(refParse d.buf).2⟩) := by
  induction d using drain.induct with
  | case1 d body d' h ih =>
    rw [drain]
    rcases nextFrame_cases d with ⟨b, rest, hb, hbuf, hn⟩ | ⟨-, -, hn⟩ | ⟨-, -, hn⟩
    · rw [hn] at h
      cases h
      split
      · rename_i h
        rw [hn] at h
        cases h
        simp [ih, hbuf, refParse_frameOf hb]
      · rename_i h
        exact absurd hn (h _ _)
    · rw [hn] at h; cases h
    · rw [hn] at h; cases h
  | case2 d h =>
    have hnot : ¬ Complete d.buf := by
      rcases nextFrame_cases d with ⟨b, rest, -, -, hn⟩ | ⟨h4, hmax, -⟩ | ⟨hc, -, -⟩
      · exact absurd hn (h _ _)
      · exact fun hc => absurd hc.2.1 (by omega)
      · exact hc
    rw [drain, refParse_of_not_complete hnot]
    split
    · rename_i hn
      exact absurd hn (h _ _)
    · rfl

end FrameDecoder

/-! ## Readers: `Conn::next` and `Channel::next` over QUIC -/

/-- A connection's reading end. `pending` says that a call of `next` waits for the transport.
The history variables `received` and `frames` record the bytes pushed and the frames popped. -/
structure Reader where
  decoder : FrameDecoder
  pending : Bool
  received : Data
  frames : List Data
  deriving DecidableEq

namespace Reader

/-- What can happen at a reading end. -/
inductive Op where
  /-- A direct `push`. -/
  | push (bytes : Data)
  /-- A direct `next_frame`. -/
  | nextFrame
  /-- `next` is called: it looks for a buffered frame and otherwise waits. -/
  | call
  /-- The waiting `next` gets a chunk of the stream and looks again. -/
  | chunk (bytes : Data)
  /-- The waiting `next` returns without a frame: a datagram, the end of the stream, or a
  transport failure. -/
  | other
  /-- The future of the waiting `next` is dropped by `select!`. -/
  | cancel

def init : Reader := ⟨.new, false, [], []⟩

/-- Pop a frame if there is one; `wait` says whether the caller goes on waiting otherwise. -/
def popFrame (r : Reader) (wait : Bool) : Reader :=
  match r.decoder.nextFrame with
  | (.ok (some body), d) => { r with decoder := d, pending := false, frames := r.frames ++ [body] }
  | (.ok none, d) => { r with decoder := d, pending := wait }
  | (.error _, d) => { r with decoder := d, pending := false }

def pushBytes (r : Reader) (bytes : Data) : Reader :=
  { r with decoder := r.decoder.push bytes, received := r.received ++ bytes }

def step (r : Reader) : Op → Option Reader
  | .push bytes => if r.pending then none else some (r.pushBytes bytes)
  | .nextFrame => if r.pending then none else some (r.popFrame false)
  | .call => if r.pending then none else some (r.popFrame true)
  | .chunk bytes => if r.pending then some ((r.pushBytes bytes).popFrame true) else none
  | .other => if r.pending then some { r with pending := false } else none
  | .cancel => if r.pending then some { r with pending := false } else none

/-- Readers start with an empty decoder. -/
def machine : Machine Reader Op := ⟨(· = init), step⟩

/-- Everything pushed is either in a frame already returned or still buffered. -/
structure Inv (r : Reader) : Prop where
  split : r.received = framed r.frames ++ r.decoder.buf
  small : ∀ body ∈ r.frames, body.length ≤ MAX_FRAME

theorem inv_pushBytes {r : Reader} (h : Inv r) (bytes : Data) : Inv (r.pushBytes bytes) :=
  ⟨by simp [pushBytes, FrameDecoder.push, h.split], h.small⟩

theorem inv_pending {r : Reader} (h : Inv r) (p : Bool) : Inv { r with pending := p } :=
  ⟨h.split, h.small⟩

theorem inv_popFrame {r : Reader} (h : Inv r) (wait : Bool) : Inv (r.popFrame wait) := by
  rcases r.decoder.nextFrame_cases with ⟨body, rest, hb, hbuf, hn⟩ | ⟨-, -, hn⟩ | ⟨-, -, hn⟩
  · refine ⟨?_, ?_⟩
    · simp [popFrame, hn, framed_append, h.split, hbuf]
    · simp only [popFrame, hn, List.mem_append, List.mem_singleton]
      rintro b (hb' | rfl)
      · exact h.small b hb'
      · exact hb
  · rw [popFrame, hn]
    exact inv_pending h false
  · rw [popFrame, hn]
    exact inv_pending h wait

theorem inv_step {r r' : Reader} {op : Op} (h : Inv r) (hs : r.step op = some r') : Inv r' := by
  cases op <;> simp only [step, Option.ite_none_left_eq_some, Option.ite_none_right_eq_some,
    Option.some.injEq] at hs <;> obtain ⟨-, rfl⟩ := hs
  case push bytes => exact inv_pushBytes h bytes
  case nextFrame => exact inv_popFrame h false
  case call => exact inv_popFrame h true
  case chunk bytes => exact inv_popFrame (inv_pushBytes h bytes) true
  case other => exact inv_pending h false
  case cancel => exact inv_pending h false

theorem inv_reachable {r : Reader} (h : machine.Reachable r) : Inv r :=
  h.invariant (fun _ hi => hi ▸ ⟨rfl, by simp [init]⟩) fun _ _ _ hr _ hs => inv_step hr hs

/-- **Framing.** Whatever the chunking, the interleaving and the cancellations: the frames
returned so far begin the reference parse of the bytes received, the decoder's buffer is exactly
the rest of the stream, draining it completes the parse, and `next_frame` fails precisely on an
oversized header, which it leaves in place. A stream of framed payloads of allowed sizes comes
back as these payloads with nothing left over. -/
theorem frame_decoder_refines_reference {r : Reader} (h : machine.Reachable r) :
    r.frames <+: (refParse r.received).1 ∧
    r.received = framed r.frames ++ r.decoder.buf ∧
    r.frames ++ r.decoder.drain.1 = (refParse r.received).1 ∧
    r.decoder.drain.2.buf = (refParse r.received).2 ∧
    (∀ e, r.decoder.nextFrame.1 = .error e ↔
      4 ≤ r.decoder.buf.length ∧ MAX_FRAME < header r.decoder.buf ∧
        e = ⟨header r.decoder.buf⟩) ∧
    ((∃ e, r.decoder.nextFrame.1 = .error e) → r.decoder.nextFrame.2 = r.decoder) ∧
    ∀ payloads : List Data, (∀ p ∈ payloads, p.length ≤ MAX_FRAME) →
      r.received = framed payloads →
        r.frames ++ r.decoder.drain.1 = payloads ∧ r.decoder.drain.2.buf = [] := by
  have hinv := inv_reachable h
  have hparse : refParse r.received =
      (r.frames ++ r.decoder.drain.1, r.decoder.drain.2.buf) := by
    rw [hinv.split, refParse_framed hinv.small, FrameDecoder.drain_eq_refParse]
  refine ⟨by rw [hparse]; exact List.prefix_append _ _, hinv.split, by rw [hparse],
    by rw [hparse], ?_, ?_, ?_⟩
  · intro e
    rcases r.decoder.nextFrame_cases with ⟨body, rest, hb, hbuf, hn⟩ | ⟨h4, hmax, hn⟩ |
      ⟨-, hnot, hn⟩
    · have hle : header r.decoder.buf ≤ MAX_FRAME := by
        rw [hbuf, header_frameOf_of_le hb]; exact hb
      rw [hn]
      exact ⟨fun he => (by cases he), fun he => absurd he.2.1 (by omega)⟩
    · rw [hn]
      exact ⟨fun he => (by cases he; exact ⟨h4, hmax, rfl⟩), fun he => by rw [he.2.2]⟩
    · rw [hn]
      exact ⟨fun he => (by cases he), fun he => absurd ⟨he.1, he.2.1⟩ hnot⟩
  · rintro ⟨e, he⟩
    rcases r.decoder.nextFrame_cases with ⟨body, rest, -, -, hn⟩ | ⟨-, -, hn⟩ | ⟨-, -, hn⟩
    · rw [hn] at he; cases he
    · rw [hn]
    · rw [hn]
  · intro payloads hp hrec
    have hfull : refParse r.received = (payloads, []) := by
      have := refParse_framed hp []
      rw [List.append_nil] at this
      rw [hrec, this, refParse_of_not_complete (fun hc => absurd hc.1 (by simp))]
      simp
    rw [hparse] at hfull
    exact Prod.mk.inj hfull

/-- A frame whose header is split by a cancelled call, with the next header's first byte behind
it. -/
def splitRead : List Op := [.call, .chunk [0, 0], .cancel, .push [0, 1, 7, 0], .nextFrame]

def afterSplitRead : Reader := ⟨⟨[0]⟩, false, [0, 0, 0, 1, 7, 0], [[7]]⟩

theorem reachable_afterSplitRead : machine.Reachable afterSplitRead :=
  Machine.reachable_of_run rfl (by decide +kernel : machine.run init splitRead = some afterSplitRead)

theorem splitRead_refines_reference :
    afterSplitRead.frames <+: (refParse afterSplitRead.received).1 ∧
      afterSplitRead.received = framed afterSplitRead.frames ++ [0] :=
  have h := frame_decoder_refines_reference reachable_afterSplitRead
  ⟨h.1, h.2.1⟩

end Reader

end HerdrEternal
