import Mathlib.Data.List.Basic
/-!
# Base64, raw and URL-safe

Three bytes are written as four letters of a 64-letter alphabet, and a rest of
two or one bytes as three or two letters, without padding. The decoder skips
line ends and does not look at the bits a short group leaves over.
-/

namespace SemStreams.Base64

open List Option

/-! ## Six bits at a time -/

/-- The bytes cut into values of six bits. -/
def sextets : List UInt8 → List ℕ
  | a :: b :: c :: rest =>
    let n := a.toNat * 65536 + b.toNat * 256 + c.toNat
    n / 262144 :: n / 4096 % 64 :: n / 64 % 64 :: n % 64 :: sextets rest
  | [a, b] =>
    let n := a.toNat * 1024 + b.toNat * 4
    [n / 4096, n / 64 % 64, n % 64]
  | [a] => [a.toNat * 16 / 64, a.toNat * 16 % 64]
  | [] => []

/-- The bytes of six-bit values; a single value is no byte. -/
def bytes : List ℕ → Option (List UInt8)
  | a :: b :: c :: d :: rest =>
    let n := ((a * 64 + b) * 64 + c) * 64 + d
    (bytes rest).map fun bs =>
      UInt8.ofNat (n / 65536) :: UInt8.ofNat (n / 256) :: UInt8.ofNat n :: bs
  | [a, b, c] =>
    let n := (a * 64 + b) * 64 + c
    some [UInt8.ofNat (n / 1024), UInt8.ofNat (n / 4)]
  | [a, b] => some [UInt8.ofNat ((a * 64 + b) / 16)]
  | [_] => none
  | [] => some []

/-! ## Letters -/

def letter (n : ℕ) : Char :=
  if n < 26 then Char.ofNat (n + 65)
  else if n < 52 then Char.ofNat (n + 71)
  else if n < 62 then Char.ofNat (n - 4)
  else if n = 62 then '-'
  else '_'

def value (c : Char) : Option ℕ :=
  if 'A' ≤ c ∧ c ≤ 'Z' then some (c.toNat - 65)
  else if 'a' ≤ c ∧ c ≤ 'z' then some (c.toNat - 71)
  else if '0' ≤ c ∧ c ≤ '9' then some (c.toNat + 4)
  else if c = '-' then some 62
  else if c = '_' then some 63
  else none

def encode (bs : List UInt8) : List Char := (sextets bs).map letter

def decode (text : List Char) : Option (List UInt8) :=
  ((text.filter fun c => c ≠ '\r' ∧ c ≠ '\n').mapM value).bind bytes

/-! ## The round trip -/

theorem value_letter : ∀ n < 64, value (letter n) = some n := by decide

theorem letter_ne_lineEnd : ∀ n < 64, letter n ≠ '\r' ∧ letter n ≠ '\n' := by decide

variable (bs : List UInt8)

theorem sextets_lt : ∀ n ∈ sextets bs, n < 64 := by
  fun_induction sextets bs with
  | case1 a b c rest n ih =>
    have := a.toNat_lt
    have := b.toNat_lt
    have := c.toNat_lt
    simp only [forall_mem_cons]
    exact ⟨by omega, by omega, by omega, by omega, ih⟩
  | case2 a b n =>
    have := a.toNat_lt
    have := b.toNat_lt
    simp only [forall_mem_cons]
    exact ⟨by omega, by omega, by omega, by simp⟩
  | case3 a =>
    have := a.toNat_lt
    simp only [forall_mem_cons]
    exact ⟨by omega, by omega, by simp⟩
  | case4 => exact nofun

theorem bytes_sextets : bytes (sextets bs) = some bs := by
  have hbyte : ∀ (b : UInt8) (n : ℕ), n % 256 = b.toNat → UInt8.ofNat n = b := by
    intro b n h
    rw [← UInt8.toNat_inj, UInt8.toNat_ofNat']
    exact h
  fun_induction sextets bs with
  | case1 a b c rest n ih =>
    have := a.toNat_lt
    have := b.toNat_lt
    have := c.toNat_lt
    simp only [bytes, ih, map_some]
    rw [hbyte a _ (by omega), hbyte b _ (by omega), hbyte c _ (by omega)]
  | case2 a b n =>
    have := a.toNat_lt
    have := b.toNat_lt
    simp only [bytes]
    rw [hbyte a _ (by omega), hbyte b _ (by omega)]
  | case3 a =>
    have := a.toNat_lt
    simp only [bytes]
    rw [hbyte a _ (by omega)]
  | case4 => rfl

theorem mapM_value_letter {ns : List ℕ} (h : ∀ n ∈ ns, n < 64) :
    (ns.map letter).mapM value = some ns := by
  induction ns with
  | nil => rfl
  | cons n ns ih =>
    obtain ⟨hn, hns⟩ := forall_mem_cons.1 h
    rw [map_cons, mapM_cons, value_letter n hn, ih hns]
    rfl

/-- **What was encoded is decoded.** -/
theorem decode_encode : decode (encode bs) = some bs := by
  have hfilter : (encode bs).filter (fun c => c ≠ '\r' ∧ c ≠ '\n') = encode bs := by
    refine filter_eq_self.2 fun c hc => ?_
    obtain ⟨n, hn, rfl⟩ := List.mem_map.1 hc
    exact decide_eq_true (letter_ne_lineEnd n (sextets_lt bs n hn))
  unfold decode
  rw [hfilter, encode, mapM_value_letter (sextets_lt bs), bind_some, bytes_sextets]

theorem encode_eq_nil {bs : List UInt8} (h : encode bs = []) : bs = [] := by
  have hdecode := decode_encode bs
  rw [h] at hdecode
  exact (Option.some.inj hdecode).symm

end SemStreams.Base64
