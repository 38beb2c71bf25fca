import Mathlib.Data.List.Basic
import Mathlib.Data.Nat.Log
import Mathlib.Tactic.Ring

/-!
# Numbers as bytes

Two encodings of natural numbers as byte lists:

* **Big-endian words** of a fixed number of bytes (`beBytes`), read back by `beValue`. A number
  too large for the word is cut off to its low bytes.
* **Varints** (LEB128): seven bits a byte, lowest first, every byte but the last with its high
  bit set. A `b`-bit integer takes at most `varintMax b` bytes, and the last of them may only
  use the `b % 7` bits that are left. Signed integers are mapped to unsigned ones first
  (`zigzag`).

Both come with the round trip in the presence of following bytes, which is the form a decoder
of concatenated fields needs.
-/

namespace Bytes

/-! ## Single bytes -/

@[simp] theorem toNat_ofNat_of_lt {n : Nat} (h : n < 256) : (UInt8.ofNat n).toNat = n := by
  simp [UInt8.toNat_ofNat', Nat.mod_eq_of_lt h]

/-! ## Big-endian words -/

/-- The low `k` bytes of `v`, most significant first. -/
def beBytes : Nat → Nat → List UInt8
  | 0, _ => []
  | k + 1, v => UInt8.ofNat (v / 256 ^ k % 256) :: beBytes k v

/-- The number that big-endian bytes spell. -/
def beValue : List UInt8 → Nat
  | [] => 0
  | b :: bs => b.toNat * 256 ^ bs.length + beValue bs

@[simp] theorem length_beBytes (k v : Nat) : (beBytes k v).length = k := by
  induction k with
  | zero => rfl
  | succ k ih => simp [beBytes, ih]

/-- Reading a word back gives the number modulo the word size. -/
theorem beValue_beBytes (k v : Nat) : beValue (beBytes k v) = v % 256 ^ k := by
  induction k with
  | zero => simp [beBytes, beValue, Nat.mod_one]
  | succ k ih =>
    have hb : (UInt8.ofNat (v / 256 ^ k % 256)).toNat = v / 256 ^ k % 256 :=
      toNat_ofNat_of_lt (Nat.mod_lt _ (by decide))
    rw [beBytes, beValue, ih, length_beBytes, hb, Nat.pow_succ, Nat.mod_mul]
    ring

theorem beValue_lt (bs : List UInt8) : beValue bs < 256 ^ bs.length := by
  induction bs with
  | nil => simp [beValue]
  | cons b bs ih =>
    have hb : b.toNat + 1 ≤ 256 := b.toNat_lt
    calc b.toNat * 256 ^ bs.length + beValue bs
        < b.toNat * 256 ^ bs.length + 256 ^ bs.length := Nat.add_lt_add_left ih _
      _ = (b.toNat + 1) * 256 ^ bs.length := by ring
      _ ≤ 256 * 256 ^ bs.length := Nat.mul_le_mul_right _ hb
      _ = 256 ^ (b :: bs).length := by rw [List.length_cons, Nat.pow_succ]; ring

/-- The low bytes do not see what is above them. -/
theorem beBytes_add_mul {j k : Nat} (h : j ≤ k) (m v : Nat) :
    beBytes j (m * 256 ^ k + v) = beBytes j v := by
  induction j with
  | zero => rfl
  | succ j ih =>
    have hpow : 256 ^ k = 256 ^ j * (256 * 256 ^ (k - j - 1)) := by
      rw [← Nat.pow_succ', ← Nat.pow_add]
      congr 1
      omega
    have hdiv : (m * 256 ^ k + v) / 256 ^ j = m * 256 ^ (k - j - 1) * 256 + v / 256 ^ j := by
      rw [hpow, show m * (256 ^ j * (256 * 256 ^ (k - j - 1))) + v =
        v + 256 ^ j * (m * 256 ^ (k - j - 1) * 256) by ring,
        Nat.add_mul_div_left _ _ (Nat.pow_pos (by decide))]
      ring
    rw [beBytes, beBytes, ih (by omega), hdiv, Nat.mul_add_mod_self_right]

/-- Spelling out the value of `k` bytes gives these bytes. -/
theorem beBytes_beValue (bs : List UInt8) : beBytes bs.length (beValue bs) = bs := by
  induction bs with
  | nil => rfl
  | cons b bs ih =>
    have hdiv : (b.toNat * 256 ^ bs.length + beValue bs) / 256 ^ bs.length = b.toNat := by
      rw [Nat.add_comm, Nat.add_mul_div_right _ _ (Nat.pow_pos (by decide)),
        Nat.div_eq_of_lt (beValue_lt bs), Nat.zero_add]
    rw [beValue, List.length_cons, beBytes, beBytes_add_mul le_rfl, ih, hdiv]
    simp [Nat.mod_eq_of_lt b.toNat_lt]

/-! ## Varints -/

/-- Bytes that the longest varint of a `bits`-bit integer takes. -/
def varintMax (bits : Nat) : Nat := (bits + 6) / 7

/-- Largest last byte of a varint of maximal length. -/
def maxOfLastByte (bits : Nat) : Nat := 2 ^ (bits % 7) - 1

/-- The varint of `n`, in at most `fuel` bytes. -/
def varintAux : Nat → Nat → List UInt8
  | 0, _ => []
  | fuel + 1, n =>
    if n < 128 then [UInt8.ofNat n]
    else UInt8.ofNat (n % 128 + 128) :: varintAux fuel (n / 128)

/-- The varint of a `bits`-bit integer. -/
def varint (bits n : Nat) : List UInt8 := varintAux (varintMax bits) n

/-- Read a varint of at most `fuel` bytes, the last of which must not exceed `last`. -/
def takeVarintAux (last : Nat) : Nat → List UInt8 → Option (Nat × List UInt8)
  | 0, _ => none
  | _, [] => none
  | fuel + 1, b :: bs =>
    if b.toNat < 128 then
      if fuel = 0 ∧ last < b.toNat then none else some (b.toNat, bs)
    else (takeVarintAux last fuel bs).map fun (n, rest) => (b.toNat - 128 + 128 * n, rest)

/-- Read the varint of a `bits`-bit integer off the front of `bs`. -/
def takeVarint (bits : Nat) (bs : List UInt8) : Option (Nat × List UInt8) :=
  takeVarintAux (maxOfLastByte bits) (varintMax bits) bs

theorem length_varintAux_le (fuel n : Nat) : (varintAux fuel n).length ≤ fuel := by
  induction fuel generalizing n with
  | zero => simp [varintAux]
  | succ fuel ih =>
    rw [varintAux]
    split_ifs with h
    · simp
    · simpa using ih (n / 128)

theorem length_varint_le (bits n : Nat) : (varint bits n).length ≤ varintMax bits :=
  length_varintAux_le _ _

/-- **Varints read back**, whatever follows them, if the number fits the bytes allowed. -/
theorem takeVarintAux_append {last fuel n : Nat} (hl : last < 128)
    (hn : n < (last + 1) * 128 ^ (fuel - 1)) (hf : 0 < fuel) (rest : List UInt8) :
    takeVarintAux last fuel (varintAux fuel n ++ rest) = some (n, rest) := by
  induction fuel generalizing n with
  | zero => cases hf
  | succ fuel ih =>
    rw [varintAux]
    split_ifs with h
    · have hlast : ¬ (fuel = 0 ∧ last < n) := by
        rintro ⟨rfl, hlt⟩
        simp at hn; omega
      simp only [List.singleton_append, takeVarintAux, toNat_ofNat_of_lt (by omega : n < 256),
        if_pos h, if_neg hlast]
    · have hb : (UInt8.ofNat (n % 128 + 128)).toNat = n % 128 + 128 :=
        toNat_ofNat_of_lt (by omega)
      have hnlt : ¬ n % 128 + 128 < 128 := by omega
      -- The remaining groups fit the remaining bytes; a single byte would not have sufficed.
      rcases Nat.eq_zero_or_pos fuel with rfl | hpos
      · simp at hn; omega
      · have hdiv : n / 128 < (last + 1) * 128 ^ (fuel - 1) := by
          rw [Nat.div_lt_iff_lt_mul (by decide), Nat.mul_assoc, ← Nat.pow_succ]
          simpa [show fuel - 1 + 1 = fuel by omega] using hn
        simp only [List.cons_append, takeVarintAux, hb, if_neg hnlt, ih hdiv hpos, Option.map_some]
        congr 2
        omega

/-- The largest value a varint of maximal length can spell is the largest `bits`-bit integer. -/
theorem varint_capacity {bits : Nat} (h : bits % 7 ≠ 0) :
    (maxOfLastByte bits + 1) * 128 ^ (varintMax bits - 1) = 2 ^ bits := by
  have hpow : 0 < 2 ^ (bits % 7) := Nat.two_pow_pos _
  have hmax : varintMax bits - 1 = bits / 7 := by unfold varintMax; omega
  rw [hmax, maxOfLastByte, Nat.sub_add_cancel hpow, show (128 : Nat) = 2 ^ 7 from rfl,
    ← Nat.pow_mul, ← Nat.pow_add, Nat.mod_add_div]

theorem takeVarint_varint {bits n : Nat} (h7 : bits % 7 ≠ 0) (hn : n < 2 ^ bits)
    (rest : List UInt8) : takeVarint bits (varint bits n ++ rest) = some (n, rest) := by
  have hlt : 2 ^ (bits % 7) ≤ 2 ^ 6 :=
    Nat.pow_le_pow_right (by decide) (by have := Nat.mod_lt bits (by decide : 7 > 0); omega)
  refine takeVarintAux_append ?_ ?_ ?_ rest
  · unfold maxOfLastByte; omega
  · rwa [varint_capacity h7]
  · unfold varintMax; omega

/-! ## Zigzag -/

/-- Signed integers to unsigned ones, small magnitudes first: `0, -1, 1, -2, …`. -/
def zigzag (i : Int) : Nat := if 0 ≤ i then 2 * i.toNat else 2 * (-i).toNat - 1

def unzigzag (n : Nat) : Int := if n % 2 = 0 then n / 2 else -(n / 2) - 1

@[simp] theorem unzigzag_zigzag (i : Int) : unzigzag (zigzag i) = i := by
  unfold unzigzag zigzag
  split_ifs <;> omega

theorem zigzag_lt {k : Nat} {i : Int} (hl : -2 ^ k ≤ i) (hu : i < 2 ^ k) :
    zigzag i < 2 ^ (k + 1) := by
  have hk : ((2 ^ k : Nat) : Int) = 2 ^ k := by push_cast; rfl
  unfold zigzag
  rw [Nat.pow_succ]
  split_ifs <;> omega

end Bytes
