import HerdrEternal.Lib.Bytes
import HerdrEternal.Proto.Message

/-!
# The postcard format of the messages

`postcard::to_stdvec` writes a value's fields one after the other, with no field names and no
padding: integers as varints (signed ones zigzagged first), a string or byte vector as its
length and its bytes, a `bool` and the tag of an `Option` as one byte, an enum as the varint of
its variant's index followed by the variant's fields. `postcard::from_bytes` reads a value off
the front of its input and ignores what follows.

`Postcard α` packages the two directions with the law that makes concatenation work: what was
put is taken back, and the bytes after it are left alone. A Lean list can be longer than any
Rust buffer, so the law asks for `Fits`: every length in the value is a `usize`.
-/

namespace HerdrEternal

open Bytes

/-- A type with a postcard encoding that reads back. -/
class Postcard (α : Type) where
  /-- Every length in the value is a `usize`, as for any value that exists in memory. -/
  Fits : α → Prop
  put : α → Data
  take : Data → Option (α × Data)
  take_put : ∀ {a : α}, Fits a → ∀ rest : Data, take (put a ++ rest) = some (a, rest)

namespace Postcard

/-! ## Primitive types -/

instance : Postcard UInt64 where
  Fits _ := True
  put n := varint 64 n.toNat
  take bs := (takeVarint 64 bs).map fun (n, rest) => (UInt64.ofNat n, rest)
  take_put {n} _ rest := by
    rw [takeVarint_varint (by decide) n.toNat_lt]
    simp

instance : Postcard Int32 where
  Fits _ := True
  put i := varint 32 (zigzag i.toInt)
  take bs := (takeVarint 32 bs).map fun (n, rest) => (Int32.ofInt (unzigzag n), rest)
  take_put {i} _ rest := by
    have hlt : zigzag i.toInt < 2 ^ 32 := zigzag_lt (k := 31) i.le_toInt i.toInt_lt
    rw [takeVarint_varint (by decide) hlt]
    simp

instance : Postcard Bool where
  Fits _ := True
  put b := [if b then 1 else 0]
  take
    | 0 :: rest => some (false, rest)
    | 1 :: rest => some (true, rest)
    | _ => none
  take_put {b} _ rest := by cases b <;> rfl

/-- A byte vector: its length, then its bytes. -/
instance instData : Postcard Data where
  Fits data := data.length < 2 ^ 64
  put data := varint 64 data.length ++ data
  take bs := (takeVarint 64 bs).bind fun (n, rest) =>
    if n ≤ rest.length then some (rest.take n, rest.drop n) else none
  take_put {data} h rest := by
    rw [List.append_assoc, takeVarint_varint (by decide) h]
    simp

/-- A string: the byte vector of its UTF-8 encoding, checked when read. -/
instance : Postcard String where
  Fits s := instData.Fits s.toByteArray.data.toList
  put s := instData.put s.toByteArray.data.toList
  take bs := (instData.take bs).bind fun (data, rest) =>
    (String.fromUTF8? ⟨data.toArray⟩).map fun s => (s, rest)
  take_put {s} h rest := by
    rw [instData.take_put h rest]
    simp [String.fromUTF8?, String.fromUTF8, s.isValidUTF8]

instance {α : Type} [Postcard α] : Postcard (Option α) where
  Fits o := ∀ a ∈ o, Fits a
  put
    | none => [0]
    | some a => 1 :: put a
  take
    | 0 :: rest => some (none, rest)
    | 1 :: rest => (take rest).map fun (a, rest) => (some a, rest)
    | _ => none
  take_put {o} h rest := by
    cases o with
    | none => rfl
    | some a =>
      show (take (put a ++ rest)).map _ = _
      rw [take_put (h a rfl) rest]
      rfl

/-! ## Fields in sequence -/

/-- Two fields: their encodings one after the other. -/
def take₂ {α β : Type} [Postcard α] [Postcard β] (bs : Data) : Option ((α × β) × Data) :=
  (take bs).bind fun (a, rest) => (take rest).map fun (b, rest) => ((a, b), rest)

theorem take₂_put {α β : Type} [Postcard α] [Postcard β] {a : α} {b : β} (ha : Fits a)
    (hb : Fits b) (rest : Data) :
    take₂ (put a ++ (put b ++ rest)) = some ((a, b), rest) := by
  simp [take₂, take_put ha, take_put hb]

/-- The index of an enum's variant. -/
def putVariant (i : Nat) : Data := varint 32 i

def takeVariant (bs : Data) : Option (Nat × Data) := takeVarint 32 bs

theorem takeVariant_put {i : Nat} (h : i < 2 ^ 32) (rest : Data) :
    takeVariant (putVariant i ++ rest) = some (i, rest) :=
  takeVarint_varint (by decide) h rest

/-! ## The message types -/

instance : Postcard Hello where
  Fits m := Fits m.token ∧ Fits m.clientName ∧ Fits m.clientVersion
  put m := put m.token ++ (put m.clientName ++ put m.clientVersion)
  take bs := (take bs).bind fun (token, rest) =>
    (take₂ rest).map fun ((clientName, clientVersion), rest) =>
      (⟨token, clientName, clientVersion⟩, rest)
  take_put {m} h rest := by
    simp [take_put h.1, take₂_put h.2.1 h.2.2]

instance : Postcard Welcome where
  Fits m := Fits m.user ∧ Fits m.serverVersion
  put m := put m.user ++ put m.serverVersion
  take bs := (take₂ bs).map fun ((user, serverVersion), rest) => (⟨user, serverVersion⟩, rest)
  take_put {m} h rest := by
    simp [take₂_put h.1 h.2]

instance : Postcard (ExecRequest UInt64) where
  Fits
    | .exec command _ _ => Fits command
    | .resume token _ => Fits token
    | .agentChannel token => Fits token
  put
    | .exec command resumable forwardAgent =>
      putVariant 0 ++ (put command ++ (put resumable ++ put forwardAgent))
    | .resume token lastSeqSeen => putVariant 1 ++ (put token ++ put lastSeqSeen)
    | .agentChannel token => putVariant 2 ++ put token
  take bs := (takeVariant bs).bind fun
    | (0, rest) => (take rest).bind fun (command, rest) =>
        (take₂ rest).map fun ((resumable, forwardAgent), rest) =>
          (.exec command resumable forwardAgent, rest)
    | (1, rest) => (take₂ rest).map fun ((token, seq), rest) => (.resume token seq, rest)
    | (2, rest) => (take rest).map fun (token, rest) => (.agentChannel token, rest)
    | _ => none
  take_put {m} h rest := by
    cases m <;>
      simp (disch := decide) only [List.append_assoc, takeVariant_put, Option.bind_some]
    case exec command resumable forwardAgent =>
      simp [take_put h, take₂_put (a := resumable) (b := forwardAgent) trivial trivial]
    case resume token seq => simp [take₂_put (b := seq) h trivial]
    case agentChannel token => simp [take_put h]

instance : Postcard (ChannelMessage UInt64) where
  Fits
    | .started token => Fits token
    | .denied reason => Fits reason
    | .stdin _ data | .stdout _ data | .stderr _ data | .agentData _ data => Fits data
    | _ => True
  put
    | .started token => putVariant 0 ++ put token
    | .denied reason => putVariant 1 ++ put reason
    | .stdin seq data => putVariant 2 ++ (put seq ++ put data)
    | .stdinEof seq => putVariant 3 ++ put seq
    | .stdout seq data => putVariant 4 ++ (put seq ++ put data)
    | .stderr seq data => putVariant 5 ++ (put seq ++ put data)
    | .exit seq code => putVariant 6 ++ (put seq ++ put code)
    | .ack seq => putVariant 7 ++ put seq
    | .agentOpen id => putVariant 8 ++ put id
    | .agentData id data => putVariant 9 ++ (put id ++ put data)
    | .agentClose id => putVariant 10 ++ put id
  take bs := (takeVariant bs).bind fun
    | (0, rest) => (take rest).map fun (token, rest) => (.started token, rest)
    | (1, rest) => (take rest).map fun (reason, rest) => (.denied reason, rest)
    | (2, rest) => (take₂ rest).map fun ((seq, data), rest) => (.stdin seq data, rest)
    | (3, rest) => (take rest).map fun (seq, rest) => (.stdinEof seq, rest)
    | (4, rest) => (take₂ rest).map fun ((seq, data), rest) => (.stdout seq data, rest)
    | (5, rest) => (take₂ rest).map fun ((seq, data), rest) => (.stderr seq data, rest)
    | (6, rest) => (take₂ rest).map fun ((seq, code), rest) => (.exit seq code, rest)
    | (7, rest) => (take rest).map fun (seq, rest) => (.ack seq, rest)
    | (8, rest) => (take rest).map fun (id, rest) => (.agentOpen id, rest)
    | (9, rest) => (take₂ rest).map fun ((id, data), rest) => (.agentData id data, rest)
    | (10, rest) => (take rest).map fun (id, rest) => (.agentClose id, rest)
    | _ => none
  take_put {m} h rest := by
    cases m <;>
      simp (disch := decide) only [List.append_assoc, takeVariant_put, Option.bind_some]
    case started token => simp [take_put h]
    case denied reason => simp [take_put h]
    case stdin seq data | stdout seq data | stderr seq data | agentData seq data =>
      simp [take₂_put (a := seq) trivial h]
    case exit seq code => simp [take₂_put (a := seq) (b := code) trivial trivial]
    case stdinEof seq | ack seq | agentOpen seq | agentClose seq =>
      simp [take_put (a := seq) trivial]

/-- `postcard::to_stdvec`. -/
def toStdvec {α : Type} [Postcard α] (a : α) : Data := put a

/-- `postcard::from_bytes`: what follows the value is ignored. -/
def fromBytes {α : Type} [Postcard α] (bs : Data) : Option α := (take bs).map (·.1)

theorem fromBytes_toStdvec {α : Type} [Postcard α] {a : α} (h : Fits a) :
    fromBytes (toStdvec a) = some a := by
  have := take_put h []
  simp only [List.append_nil] at this
  simp [fromBytes, toStdvec, this]

end Postcard

end HerdrEternal
