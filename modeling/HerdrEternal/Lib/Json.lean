import Mathlib.Data.List.Basic
import Mathlib.Tactic.SplitIfs

/-!
# JSON tokens

A JSON text is a sequence of tokens: punctuation and field names, string literals, numbers. Here a
token is put in front of a text, and taken off the front of one. Each `take…_…` lemma says that
what was put is taken back and that the text behind it is left alone, so that the reader of a
whole object is the sequence of its tokens' readers.

A string literal holds the UTF-8 bytes of its string. Only the quote, the backslash and the control
characters are escaped, which are never part of a longer encoding.
-/

namespace JsonText

variable {b : UInt8} {rest : List UInt8}

/-! ## Fixed texts -/

/-- The bytes of a string. -/
def utf8 (s : String) : List UInt8 := s.toByteArray.data.toList

def takeToken (token text : List UInt8) : Option (List UInt8) :=
  if token.isPrefixOf text then some (text.drop token.length) else none

theorem takeToken_append (token rest : List UInt8) :
    takeToken token (token ++ rest) = some rest := by
  simp [takeToken]

/-! ## String literals -/

/-- The characters with a two-byte escape, and its letter. -/
def letters : List (UInt8 × UInt8) :=
  [(34, 34), (92, 92), (8, 98), (9, 116), (10, 110), (12, 102), (13, 114)]

def hexDigit (d : UInt8) : UInt8 := if d < 10 then 48 + d else 87 + d

def hexValue (b : UInt8) : UInt8 := if b < 58 then b - 48 else b - 87

/-- A byte of a string, as it stands in the literal. -/
def escape (b : UInt8) : List UInt8 :=
  match letters.find? fun entry => entry.1 = b with
  | some entry => [92, entry.2]
  | none => if b < 32 then [92, 117, 48, 48, hexDigit (b / 16), hexDigit (b % 16)] else [b]

/-- The bytes up to the closing quote. -/
def takeChars : List UInt8 → Option (List UInt8 × List UInt8)
  | [] => none
  | 34 :: rest => some ([], rest)
  | 92 :: 117 :: 48 :: 48 :: hi :: lo :: rest =>
    (takeChars rest).map fun (bs, rest) => ((16 * hexValue hi + hexValue lo) :: bs, rest)
  | 92 :: letter :: rest =>
    ((letters.find? fun entry => entry.2 = letter).bind fun entry =>
      (takeChars rest).map fun (bs, rest) => (entry.1 :: bs, rest))
  | b :: rest =>
    if b < 32 then none else (takeChars rest).map fun (bs, rest) => (b :: bs, rest)

theorem takeChars_letter {entry : UInt8 × UInt8} (h : entry ∈ letters) :
    takeChars (92 :: entry.2 :: rest) =
      (takeChars rest).map fun (bs, rest) => (entry.1 :: bs, rest) := by
  simp only [letters, List.mem_cons, List.not_mem_nil, or_false] at h
  rcases h with rfl | rfl | rfl | rfl | rfl | rfl | rfl <;> simp [takeChars, letters]

theorem hexByte_ofNat : ∀ n < 32, 16 * hexValue (hexDigit (UInt8.ofNat n / 16)) +
    hexValue (hexDigit (UInt8.ofNat n % 16)) = UInt8.ofNat n := by
  decide

theorem takeChars_control (hb : b < 32) :
    takeChars (92 :: 117 :: 48 :: 48 :: hexDigit (b / 16) :: hexDigit (b % 16) :: rest) =
      (takeChars rest).map fun (bs, rest) => (b :: bs, rest) := by
  have hbyte := hexByte_ofNat b.toNat hb
  rw [UInt8.ofNat_toNat] at hbyte
  rw [takeChars, hbyte]

/-- Every other byte stands for itself. -/
theorem takeChars_plain (hquote : b ≠ 34) (hback : b ≠ 92) (hb : ¬ b < 32) :
    takeChars (b :: rest) = (takeChars rest).map fun (bs, rest) => (b :: bs, rest) := by
  rw [takeChars.eq_def]
  split
  · simp_all
  · simp_all
  · simp_all
  · simp_all
  · simp only [List.cons.injEq] at *
    obtain ⟨rfl, rfl⟩ := ‹_ ∧ _›
    rw [if_neg hb]

theorem takeChars_escape (b : UInt8) (rest : List UInt8) :
    takeChars (escape b ++ rest) = (takeChars rest).map fun (bs, rest) => (b :: bs, rest) := by
  cases hl : letters.find? fun entry => entry.1 = b with
  | some entry =>
    obtain rfl : entry.1 = b := by simpa using List.find?_some hl
    rw [escape, hl]
    exact takeChars_letter (List.mem_of_find?_eq_some hl)
  | none =>
    rw [escape, hl]
    by_cases hb : b < 32
    · rw [if_pos hb]
      exact takeChars_control hb
    · rw [if_neg hb]
      have hquote : b ≠ 34 := by
        rintro rfl
        cases hl
      have hback : b ≠ 92 := by
        rintro rfl
        cases hl
      exact takeChars_plain hquote hback hb

/-- A string literal. -/
def string (s : String) : List UInt8 := 34 :: ((utf8 s).flatMap escape ++ [34])

def takeString : List UInt8 → Option (String × List UInt8)
  | 34 :: rest =>
    (takeChars rest).bind fun (bs, rest) => (String.fromUTF8? ⟨bs.toArray⟩).map (·, rest)
  | _ => none

theorem takeChars_literal (bs rest : List UInt8) :
    takeChars (bs.flatMap escape ++ 34 :: rest) = some (bs, rest) := by
  induction bs with
  | nil => simp [takeChars]
  | cons b bs ih => rw [List.flatMap_cons, List.append_assoc, takeChars_escape, ih, Option.map_some]

theorem takeString_string (s : String) (rest : List UInt8) :
    takeString (string s ++ rest) = some (s, rest) := by
  have hchars := takeChars_literal (utf8 s) rest
  rw [string, List.cons_append, List.append_assoc, List.singleton_append, takeString, hchars]
  simp [utf8, String.fromUTF8?, String.fromUTF8, s.isValidUTF8]

/-- A string, or `null`. -/
def nullable : Option String → List UInt8
  | some s => string s
  | none => utf8 "null"

def takeNullable (text : List UInt8) : Option (Option String × List UInt8) :=
  match takeToken (utf8 "null") text with
  | some rest => some (none, rest)
  | none => (takeString text).map fun (s, rest) => (some s, rest)

theorem takeNullable_nullable (o : Option String) (rest : List UInt8) :
    takeNullable (nullable o ++ rest) = some (o, rest) := by
  cases o with
  | none => rw [takeNullable, nullable, takeToken_append]
  | some s =>
    -- A literal starts with a quote.
    have hnull : takeToken (utf8 "null") (string s ++ rest) = none := rfl
    rw [takeNullable, nullable, hnull, takeString_string, Option.map_some]

/-! ## Numbers -/

def isDigit (b : UInt8) : Bool := 48 ≤ b && b ≤ 57

/-- A natural number in decimal digits. -/
def number (n : Nat) : List UInt8 := (Nat.toDigits 10 n).map Char.toUInt8

/-- A number, written without leading zeros. -/
def takeNumber (text : List UInt8) : Option (Nat × List UInt8) :=
  let n := Nat.ofDigitChars 10 ((text.takeWhile isDigit).map Char.ofUInt8) 0
  if number n = text.takeWhile isDigit then some (n, text.dropWhile isDigit) else none

theorem toUInt8_of_isDigit {c : Char} (h : c.isDigit = true) :
    isDigit c.toUInt8 = true ∧ Char.ofUInt8 c.toUInt8 = c := by
  obtain ⟨hlow, hhigh⟩ : 48 ≤ c.val.toNat ∧ c.val.toNat ≤ 57 := by
    simpa [Char.isDigit, UInt32.le_iff_toNat_le] using h
  have hval : c.toUInt8.toNat = c.val.toNat := by
    rw [Char.toUInt8, UInt32.toNat_toUInt8]
    omega
  constructor
  · have hdigit : 48 ≤ c.toUInt8.toNat ∧ c.toUInt8.toNat ≤ 57 := by omega
    simpa [isDigit, UInt8.le_iff_toNat_le] using hdigit
  · apply Char.ext
    apply UInt32.toNat_inj.mp
    rw [← hval]
    exact UInt8.toNat_toUInt32 _

theorem isDigit_number {n : Nat} (hb : b ∈ number n) : isDigit b = true := by
  obtain ⟨c, hc, rfl⟩ := List.mem_map.mp hb
  exact (toUInt8_of_isDigit (Nat.isDigit_of_mem_toDigits (by decide) (by decide) hc)).1

theorem ofDigitChars_number (n : Nat) :
    Nat.ofDigitChars 10 ((number n).map Char.ofUInt8) 0 = n := by
  have hchars : (number n).map Char.ofUInt8 = Nat.toDigits 10 n := by
    rw [number, List.map_map]
    refine (List.map_congr_left fun c hc => ?_).trans (List.map_id _)
    exact (toUInt8_of_isDigit (Nat.isDigit_of_mem_toDigits (by decide) (by decide) hc)).2
  rw [hchars, Nat.ofDigitChars_ten_toDigits]

/-- What comes behind a number is not a digit. -/
theorem takeNumber_number (n : Nat) (hb : isDigit b = false) :
    takeNumber (number n ++ b :: rest) = some (n, b :: rest) := by
  have htake : (number n ++ b :: rest).takeWhile isDigit = number n := by
    rw [List.takeWhile_append_of_pos fun _ => isDigit_number,
      List.takeWhile_cons_of_neg (by simp [hb]), List.append_nil]
  have hdrop : (number n ++ b :: rest).dropWhile isDigit = b :: rest := by
    rw [List.dropWhile_append_of_pos fun _ => isDigit_number,
      List.dropWhile_cons_of_neg (by simp [hb])]
  simp [takeNumber, htake, hdrop, ofDigitChars_number]

end JsonText
