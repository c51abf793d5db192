import Mathlib.Data.List.Basic
/-!
# Hexadecimal texts

Two lower-case digits for a byte. Decoding takes upper case too, so only the
round trip from bytes and back is an identity.
-/

namespace SemStreams

/-- The digit of a number below sixteen. -/
def hexDigit (n : ℕ) : Char := if n < 10 then Char.ofNat (48 + n) else Char.ofNat (87 + n)

def hexDigitValue (c : Char) : Option ℕ :=
  if '0' ≤ c ∧ c ≤ '9' then some (c.toNat - 48)
  else if 'a' ≤ c ∧ c ≤ 'f' then some (c.toNat - 87)
  else if 'A' ≤ c ∧ c ≤ 'F' then some (c.toNat - 55)
  else none

/-- `hex.EncodeToString`. -/
def hexEncode (bytes : List UInt8) : List Char :=
  bytes.flatMap fun b => [hexDigit (b.toNat / 16), hexDigit (b.toNat % 16)]

/-- `hex.DecodeString`. -/
def hexDecode : List Char → Option (List UInt8)
  | [] => some []
  | [_] => none
  | hi :: lo :: rest => do
    let h ← hexDigitValue hi
    let l ← hexDigitValue lo
    let bytes ← hexDecode rest
    some (UInt8.ofNat (16 * h + l) :: bytes)

theorem hexDigitValue_hexDigit (h : n < 16) : hexDigitValue (hexDigit n) = some n := by
  have hall : ∀ k : Fin 16, hexDigitValue (hexDigit k) = some k.val := by decide
  exact hall ⟨n, h⟩

variable (bytes : List UInt8)

/-- **Decoding an encoding gives the bytes back.** -/
theorem hexDecode_hexEncode : hexDecode (hexEncode bytes) = some bytes := by
  induction bytes with
  | nil => rfl
  | cons b bytes ih =>
    have hb : b.toNat < 256 := b.toNat_lt
    have hsum : 16 * (b.toNat / 16) + b.toNat % 16 = b.toNat := Nat.div_add_mod _ _
    show hexDecode (hexDigit (b.toNat / 16) :: hexDigit (b.toNat % 16) :: hexEncode bytes) = _
    rw [hexDecode, hexDigitValue_hexDigit (by omega), hexDigitValue_hexDigit (by omega), ih]
    show some (UInt8.ofNat (16 * (b.toNat / 16) + b.toNat % 16) :: bytes) = some (b :: bytes)
    rw [hsum, UInt8.ofNat_toNat]

theorem hexEncode_length : (hexEncode bytes).length = 2 * bytes.length := by
  induction bytes with
  | nil => rfl
  | cons b bytes ih =>
    show (hexEncode bytes).length + 1 + 1 = 2 * (bytes.length + 1)
    omega

theorem exists_digit_of_mem_hexEncode {bytes : List UInt8} (h : c ∈ hexEncode bytes) :
    ∃ n : Fin 16, c = hexDigit n := by
  obtain ⟨b, -, hc⟩ := List.mem_flatMap.1 h
  have hb : b.toNat < 256 := b.toNat_lt
  simp only [List.mem_cons, List.not_mem_nil, or_false] at hc
  rcases hc with rfl | rfl
  · exact ⟨⟨b.toNat / 16, by omega⟩, rfl⟩
  · exact ⟨⟨b.toNat % 16, by omega⟩, rfl⟩

end SemStreams
