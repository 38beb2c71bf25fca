import HerdrEternal.Proto.Frame
import HerdrEternal.Proto.Postcard

/-!
# Encoding messages

`encode` puts a tag in front of a message's postcard body: `ENC_RAW`, or `ENC_ZSTD` when the
body is long enough and zstd makes it shorter. `decode` undoes both, but decompresses to at most
`MAX_FRAME` bytes. `encode_frame` adds the length header for byte streams.

zstd is a parameter (`Zstd`). Its one law is the documented one: `bulk::decompress` gives back
what was compressed if it fits the given capacity, and fails otherwise.

**The limits.** Both ends agree on every message whose encoding fits a frame. Past that, the
header `encode_frame` writes is the length modulo 2³², and the decoder reports an oversized frame
only when that remainder is too large as well (`agrees_iff`). No message the programs send comes
near either limit (`ChannelMessage.encode_le`).
-/

namespace HerdrEternal

open Bytes Postcard

/-- Failures of `decode`; the postcard and zstd errors themselves are not kept. -/
inductive ProtocolError where
  | decode
  | decompress
  | unknownEncoding (tag : UInt8)
  deriving DecidableEq

def ENC_RAW : UInt8 := 0

def ENC_ZSTD : UInt8 := 1

/-- Smaller messages do not benefit from compression. -/
def COMPRESS_MIN : Nat := 64

/-- The bulk interface of zstd, at the level `encode` uses. `none` is an error. -/
structure Zstd where
  compress : Data → Option Data
  decompress : Data → Nat → Option Data
  decompress_compress : ∀ {b c : Data}, compress b = some c → ∀ cap : Nat,
    decompress c cap = if b.length ≤ cap then some b else none

section

variable (z : Zstd) {α : Type} [Postcard α]

/-- The tagged encoding of a body. -/
def encodeBody (body : Data) : Data :=
  if COMPRESS_MIN ≤ body.length then
    match z.compress body with
    | some compressed =>
      if compressed.length < body.length then ENC_ZSTD :: compressed else ENC_RAW :: body
    | none => ENC_RAW :: body
  else ENC_RAW :: body

def encode (msg : α) : Data := encodeBody z (toStdvec msg)

def decode (bytes : Data) : Except ProtocolError α :=
  match bytes with
  | [] => .error .decode
  | tag :: body =>
    if tag = ENC_RAW then
      match fromBytes body with
      | some msg => .ok msg
      | none => .error .decode
    else if tag = ENC_ZSTD then
      match z.decompress body MAX_FRAME with
      | none => .error .decompress
      | some body =>
        match fromBytes body with
        | some msg => .ok msg
        | none => .error .decode
    else .error (.unknownEncoding tag)

/-- Length-prefixes `msg` for a byte-stream transport. -/
def encodeFrame (msg : α) : Data := frameOf (encode z msg)

/-! ## Encoding -/

/-- **The two encodings**: the raw body, or a shorter one that decompresses to it. -/
theorem encodeBody_cases (body : Data) :
    encodeBody z body = ENC_RAW :: body ∨
    ∃ compressed, z.compress body = some compressed ∧ compressed.length < body.length ∧
      encodeBody z body = ENC_ZSTD :: compressed := by
  unfold encodeBody
  split_ifs with hmin
  · split
    · rename_i compressed hc
      split_ifs with hlt
      · exact .inr ⟨compressed, hc, hlt, rfl⟩
      · exact .inl rfl
    · exact .inl rfl
  · exact .inl rfl

theorem length_encode_le (msg : α) : (encode z msg).length ≤ (toStdvec msg).length + 1 := by
  rcases encodeBody_cases z (toStdvec msg) with h | ⟨c, -, hlt, h⟩ <;> rw [encode, h]
  · simp
  · simp only [List.length_cons]
    omega

/-- **Decoding inverts encoding** up to the decompression cap, and fails past it. -/
theorem decode_encode {msg : α} (h : Fits msg) : decode z (encode z msg) =
    if (encode z msg).head? = some ENC_RAW ∨ (toStdvec msg).length ≤ MAX_FRAME then .ok msg
    else .error .decompress := by
  rcases encodeBody_cases z (toStdvec msg) with he | ⟨c, hc, -, he⟩ <;>
    simp only [encode, he, decode, List.head?_cons]
  · simp [fromBytes_toStdvec h]
  · have htag : ENC_ZSTD ≠ ENC_RAW := by decide
    rw [if_neg htag, if_pos trivial, z.decompress_compress hc]
    simp only [Option.some.injEq, htag, false_or]
    split_ifs with hlen
    · simp [fromBytes_toStdvec h]
    · rfl

/-! ## The two limits -/

/-- The reader's answer to one encoded frame on a fresh stream. -/
def received (msg : α) : Except OversizedFrame (Option Data) × FrameDecoder :=
  (FrameDecoder.new.push (encodeFrame z msg)).nextFrame

/-- Encoder and decoder agree on `msg`: it decodes to itself exactly when it is raw or its body
is within the cap, the framed encoding is handed over exactly when it fits a frame, and in
every other case the peer gets an error. -/
structure Agrees (msg : α) : Prop where
  decode_iff : decode z (encode z msg) = .ok msg ↔
    (encode z msg).head? = some ENC_RAW ∨ (toStdvec msg).length ≤ MAX_FRAME
  decode_error : decode z (encode z msg) ≠ .ok msg →
    ∃ e, decode (α := α) z (encode z msg) = .error e
  frame_iff : (received z msg).1 = .ok (some (encode z msg)) ↔ (encode z msg).length ≤ MAX_FRAME
  frame_error : (received z msg).1 ≠ .ok (some (encode z msg)) →
    ∃ e, (received z msg).1 = .error e

/-- What a fresh decoder makes of one frame: the header is the length modulo 2³². -/
theorem received_eq (msg : α) : received z msg =
    if MAX_FRAME < (encode z msg).length % 2 ^ 32 then
      (.error ⟨(encode z msg).length % 2 ^ 32⟩, ⟨encodeFrame z msg⟩)
    else (.ok (some ((encode z msg).take ((encode z msg).length % 2 ^ 32))),
      ⟨(encode z msg).drop ((encode z msg).length % 2 ^ 32)⟩) := by
  have hhead : header (frameOf (encode z msg)) = (encode z msg).length % 2 ^ 32 := by
    have := header_frameOf (encode z msg) []
    rwa [List.append_nil] at this
  have hmod := Nat.mod_le (encode z msg).length (2 ^ 32)
  simp only [received, FrameDecoder.nextFrame, FrameDecoder.new, FrameDecoder.push,
    List.nil_append, encodeFrame, hhead, length_frameOf]
  rw [if_neg (by omega)]
  split_ifs with hmax hlen
  · rfl
  · omega
  · rw [List.drop_take, Nat.add_sub_cancel_left, ← List.drop_drop]
    simp [frameOf]

/-- The header an encoding gets does not announce a smaller frame than the one that follows. -/
def HeaderFaithful (len : Nat) : Prop := len ≤ MAX_FRAME ∨ MAX_FRAME < len % 2 ^ 32

theorem agrees_iff_headerFaithful {msg : α} (h : Fits msg) :
    Agrees z msg ↔ HeaderFaithful (encode z msg).length := by
  have hrec := received_eq z msg
  have hdec := decode_encode z h
  constructor
  · intro ha
    by_contra hbad
    simp only [HeaderFaithful, not_or, not_le, not_lt] at hbad
    obtain ⟨e, he⟩ := ha.frame_error fun hok => absurd (ha.frame_iff.mp hok) (by omega)
    rw [hrec, if_neg (by omega)] at he
    cases he
  · intro hok
    refine ⟨?_, ?_, ?_, ?_⟩
    · rw [hdec]
      split_ifs with hc <;> simp [hc]
    · intro hne
      rw [hdec] at hne ⊢
      split_ifs at hne ⊢ with hc
      · exact absurd rfl hne
      · exact ⟨_, rfl⟩
    · rw [hrec]
      rcases hok with hle | hbig
      · rw [Nat.mod_eq_of_lt (lt_of_le_of_lt hle (by decide)), if_neg (by omega)]
        simp [hle]
      · have hgt : ¬ (encode z msg).length ≤ MAX_FRAME := fun hle =>
          absurd (Nat.mod_le (encode z msg).length (2 ^ 32)) (by omega)
        rw [if_pos hbig]
        simp [hgt]
    · intro hne
      rw [hrec] at hne ⊢
      rcases hok with hle | hbig
      · rw [Nat.mod_eq_of_lt (lt_of_le_of_lt hle (by decide)), if_neg (by omega)] at hne
        simp at hne
      · rw [if_pos hbig]
        exact ⟨_, rfl⟩

end

/-! ## The messages the programs send -/

namespace ChannelMessage

/-- Stdio chunks of at most 16 KiB, agent chunks of at most 4 KiB, and the control messages. -/
def Sendable : ChannelMessage UInt64 → Prop
  | .stdin _ data | .stdout _ data | .stderr _ data => data.length ≤ 16 * 1024
  | .agentData _ data => data.length ≤ 4 * 1024
  | .stdinEof _ | .exit .. | .ack _ | .agentOpen _ | .agentClose _ => True
  | .started _ | .denied _ => False

theorem length_putVariant_le (i : Nat) : (putVariant i).length ≤ 5 := length_varint_le 32 i

theorem length_put_seq_le (n : UInt64) : (put n).length ≤ 10 := length_varint_le 64 n.toNat

theorem length_put_code_le (i : Int32) : (put i).length ≤ 5 := length_varint_le 32 _

theorem length_put_data_le (data : Data) : (instData.put data).length ≤ 10 + data.length := by
  have := length_varint_le 64 data.length
  show (varint 64 data.length ++ data).length ≤ _
  rw [List.length_append]
  have h10 : varintMax 64 = 10 := rfl
  omega

/-- A sendable message's body is its data and a few bytes of numbers. -/
theorem length_toStdvec_le {m : ChannelMessage UInt64} (h : m.Sendable) :
    (toStdvec m).length ≤ 25 + 16 * 1024 := by
  cases m with
  | started _ | denied _ => exact h.elim
  | stdin seq data | stdout seq data | stderr seq data | agentData seq data =>
    show (putVariant _ ++ (put seq ++ put data)).length ≤ _
    simp only [List.length_append]
    have hdata : data.length ≤ 16 * 1024 := le_trans h (by decide)
    have := length_put_data_le data
    have := length_put_seq_le seq
    have := length_putVariant_le
    grind
  | exit seq code =>
    show (putVariant _ ++ (put seq ++ put code)).length ≤ _
    simp only [List.length_append]
    have := length_putVariant_le 6
    have := length_put_seq_le seq
    have := length_put_code_le code
    omega
  | stdinEof seq | ack seq | agentOpen seq | agentClose seq =>
    show (putVariant _ ++ put seq).length ≤ _
    simp only [List.length_append]
    have := length_put_seq_le seq
    have := length_putVariant_le
    grind

/-- Both limits are far above what the programs send, whatever zstd does. -/
theorem encode_le (z : Zstd) {m : ChannelMessage UInt64} (h : m.Sendable) :
    (toStdvec m).length ≤ MAX_FRAME ∧ (encode z m).length ≤ MAX_FRAME := by
  have hbody := length_toStdvec_le h
  have henc := length_encode_le z m
  have hmax : MAX_FRAME = 1048576 := rfl
  omega

end ChannelMessage

/-! ## Where the two ends agree -/

/-- **Agreement up to the size limits.** Encoder and decoder agree on a message exactly when the
header written for it announces its true size or an oversized one; and every message the
programs send lies inside both limits. -/
theorem agrees_iff (z : Zstd) {α : Type} [Postcard α] {msg : α} (h : Fits msg) :
    (Agrees z msg ↔ HeaderFaithful (encode z msg).length) ∧
      ∀ m : ChannelMessage UInt64, m.Sendable →
        (toStdvec m).length ≤ MAX_FRAME ∧ (encode z m).length ≤ MAX_FRAME :=
  ⟨agrees_iff_headerFaithful z h, fun _ hm => ChannelMessage.encode_le z hm⟩

/-- A zstd that stores everything behind one header byte, as it does with data it cannot
shrink. -/
def Zstd.stored : Zstd where
  compress b := some (0 :: b)
  decompress c cap := if c.length - 1 ≤ cap then some c.tail else none
  decompress_compress := by rintro b c ⟨rfl⟩ cap; simp

theorem encode_stored {α : Type} [Postcard α] (msg : α) :
    encode Zstd.stored msg = ENC_RAW :: toStdvec msg := by
  rcases encodeBody_cases Zstd.stored (toStdvec msg) with h | ⟨c, hc, hlt, -⟩
  · exact h
  · cases hc
    simp at hlt

theorem agrees_ack : Agrees Zstd.stored (ChannelMessage.ack (5 : UInt64)) :=
  (agrees_iff Zstd.stored (show Fits (ChannelMessage.ack (5 : UInt64)) from trivial)).1.mpr
    (.inl (by rw [encode_stored]; decide))

theorem toStdvec_stdin (seq : UInt64) (data : Data) :
    toStdvec (ChannelMessage.stdin seq data) =
      putVariant 2 ++ (put seq ++ (varint 64 data.length ++ data)) := rfl

/-- With 2³² - 8 bytes of data, the tag, the variant, the sequence number and the length fill the
encoding up to 2³² bytes. -/
theorem length_encode_stdin {data : Data} (h : data.length = 2 ^ 32 - 8) :
    (encode Zstd.stored (ChannelMessage.stdin (0 : UInt64) data)).length = 2 ^ 32 := by
  have hvariant : (putVariant 2).length = 1 := by decide
  have hseq : (put (0 : UInt64)).length = 1 := by decide
  have hlen : (varint 64 (2 ^ 32 - 8)).length = 5 := by decide
  rw [encode_stored, toStdvec_stdin, h]
  simp only [List.length_cons, List.length_append, hvariant, hseq, hlen, h]
  decide

theorem not_agrees_stdin {data : Data} (h : data.length = 2 ^ 32 - 8) :
    ¬ Agrees Zstd.stored (ChannelMessage.stdin (0 : UInt64) data) := by
  have hfits : Fits (ChannelMessage.stdin (0 : UInt64) data) := by
    show data.length < 2 ^ 64
    rw [h]
    decide
  rw [agrees_iff_headerFaithful _ hfits, length_encode_stdin h, HeaderFaithful]
  decide

/-- The header written for this chunk is zero: the decoder hands over an empty frame. -/
theorem not_agrees_hugeChunk :
    ¬ Agrees Zstd.stored (ChannelMessage.stdin (0 : UInt64) (List.replicate (2 ^ 32 - 8) 0)) :=
  not_agrees_stdin List.length_replicate

end HerdrEternal
