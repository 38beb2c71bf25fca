import HerdrEternal.Proto.Transport

/-!
# A peer that sends anything

Nothing forces a peer to send frames. This file is about the reader of a QUIC stream alone, as
`next` uses it, with any bytes at all.

**Theorem (`hostile_peer_bounded`).** The decoder never holds more than a largest frame with its
header and one chunk, and behind a header that announces too much nothing is read any more.
-/

namespace HerdrEternal

namespace Reader

variable {r r' : Reader}

/-- The reader is only used through `next`. -/
def NextOnly (_ : Reader) : Op → Prop
  | .push _ | .nextFrame => False
  | .chunk bytes => bytes.length ≤ CHUNK
  | _ => True

/-- A waiting `next` has no complete frame in the buffer; otherwise one more chunk may be there. -/
structure Bounded (r : Reader) : Prop where
  buf_le : r.decoder.buf.length ≤ MAX_FRAME + 3 + CHUNK
  waiting : r.pending = true → r.decoder.nextFrame.1 = .ok none

theorem length_of_incomplete {d : FrameDecoder} (h : d.nextFrame.1 = .ok none) :
    d.buf.length ≤ MAX_FRAME + 3 := by
  rcases d.nextFrame_cases with ⟨_, _, _, _, hn⟩ | ⟨_, _, hn⟩ | ⟨hc, hbig, -⟩
  · rw [hn] at h
    cases h
  · rw [hn] at h
    cases h
  · rw [Complete] at hc
    omega

theorem bounded_popFrame {wait : Bool} (h : r.decoder.buf.length ≤ MAX_FRAME + 3 + CHUNK) :
    Bounded (r.popFrame wait) := by
  rcases r.decoder.nextFrame_cases with ⟨body, rest, -, hbuf, hn⟩ | ⟨-, -, hn⟩ | ⟨-, -, hn⟩
  · rw [popFrame, hn]
    refine ⟨?_, fun hp => (by cases hp)⟩
    show rest.length ≤ _
    rw [hbuf, List.length_append] at h
    omega
  · rw [popFrame, hn]
    exact ⟨h, fun hp => (by cases hp)⟩
  · have hnone : r.decoder.nextFrame.1 = .ok none := by rw [hn]
    rw [popFrame, hn]
    exact ⟨h, fun _ => hnone⟩

theorem Bounded.step {op : Op} (h : Bounded r) (hC : NextOnly r op) (hs : r.step op = some r') :
    Bounded r' := by
  cases op <;> simp only [Reader.step, Option.ite_none_left_eq_some,
    Option.ite_none_right_eq_some, Option.some.injEq] at hs <;> obtain ⟨hp, rfl⟩ := hs
  case push bytes => exact hC.elim
  case nextFrame => exact hC.elim
  case call => exact bounded_popFrame h.buf_le
  case chunk bytes =>
    have hwait := length_of_incomplete (h.waiting hp)
    refine bounded_popFrame ?_
    show (r.decoder.buf ++ bytes).length ≤ _
    rw [List.length_append]
    exact Nat.add_le_add hwait hC
  case other => exact ⟨h.buf_le, fun hp => (by cases hp)⟩
  case cancel => exact ⟨h.buf_le, fun hp => (by cases hp)⟩

theorem bounded_under (h : machine.Under NextOnly r) : Bounded r := by
  refine h.invariant ?_ fun _ _ _ hb hC hs => hb.step hC hs
  rintro r rfl
  exact ⟨Nat.zero_le _, fun hp => (by cases hp)⟩

/-- A header that is too large stays in front of the decoder. -/
structure Stuck (r₀ r : Reader) : Prop where
  idle : r.pending = false
  decoder : r.decoder = r₀.decoder
  received : r.received = r₀.received
  frames : r.frames = r₀.frames

theorem Stuck.step {r₀ : Reader} {op : Op} {e : OversizedFrame}
    (he : r₀.decoder.nextFrame.1 = .error e) (h : Stuck r₀ r) (hC : NextOnly r op)
    (hs : r.step op = some r') : Stuck r₀ r' := by
  have hidle := h.idle
  cases op <;> simp only [Reader.step, Option.ite_none_left_eq_some,
    Option.ite_none_right_eq_some, Option.some.injEq] at hs <;> obtain ⟨hp, rfl⟩ := hs
  case push bytes => exact hC.elim
  case nextFrame => exact hC.elim
  case call =>
    rcases r.decoder.nextFrame_cases with ⟨_, _, _, _, hn⟩ | ⟨-, -, hn⟩ | ⟨-, -, hn⟩
    · rw [h.decoder] at hn
      rw [hn] at he
      cases he
    · rw [popFrame, hn]
      exact ⟨rfl, h.decoder, h.received, h.frames⟩
    · rw [h.decoder] at hn
      rw [hn] at he
      cases he
  case chunk bytes =>
    rw [hidle] at hp
    cases hp
  case other =>
    rw [hidle] at hp
    cases hp
  case cancel =>
    rw [hidle] at hp
    cases hp

/-- **A reader's memory is bounded, whatever its peer sends.** A connection's decoder never holds
more than a largest frame with its header and one chunk, no frame it hands over is larger than
`MAX_FRAME`, and behind a header that announces more nothing is read or handed over again. -/
theorem hostile_peer_bounded (h : machine.Under NextOnly r) :
    r.decoder.buf.length ≤ MAX_FRAME + 3 + CHUNK ∧
    (∀ body ∈ r.frames, body.length ≤ MAX_FRAME) ∧
    ∀ e, r.decoder.nextFrame.1 = .error e →
      ∀ r', (machine.startAt r).Under NextOnly r' →
        r'.received = r.received ∧ r'.frames = r.frames := by
  have hb := bounded_under h
  refine ⟨hb.buf_le, (inv_reachable h.reachable).small, fun e he r' h' => ?_⟩
  have hidle : r.pending = false := by
    by_contra hp
    rw [hb.waiting (by simpa using hp)] at he
    cases he
  have hstuck : Stuck r r' := by
    refine h'.invariant ?_ fun _ _ _ hst hC hs => hst.step he hC hs
    rintro r' rfl
    exact ⟨hidle, rfl, rfl, rfl⟩
  exact ⟨hstuck.received, hstuck.frames⟩

/-- A header that announces 2³² - 1 bytes, and one byte behind it. -/
def oversizedRead : List Op := [.call, .chunk [255, 255, 255, 255, 7]]

def afterOversized : Reader := ⟨⟨[255, 255, 255, 255, 7]⟩, false, [255, 255, 255, 255, 7], []⟩

theorem under_afterOversized : machine.Under NextOnly afterOversized := by
  have hrun : machine.run init oversizedRead = some afterOversized := by decide +kernel
  refine Machine.under_of_run (.init rfl) (fun r op hop => ?_) hrun
  simp only [oversizedRead, List.mem_cons, List.not_mem_nil, or_false] at hop
  rcases hop with rfl | rfl
  · trivial
  · show List.length _ ≤ CHUNK
    decide

theorem afterOversized_bounded :
    machine.Under NextOnly afterOversized ∧
    afterOversized.decoder.nextFrame.1 = .error ⟨2 ^ 32 - 1⟩ ∧
    afterOversized.decoder.buf.length ≤ MAX_FRAME + 3 + CHUNK :=
  ⟨under_afterOversized, by decide +kernel, (hostile_peer_bounded under_afterOversized).1⟩

end Reader

end HerdrEternal
