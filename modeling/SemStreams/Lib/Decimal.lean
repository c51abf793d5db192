import Mathlib.Data.List.TakeWhile
import Mathlib.Data.Nat.Digits.Defs
import Mathlib.Tactic.Positivity
/-!
# Numbers in keys

A key is often a number, a mark and a text. The number is read back as far as the
mark, so the key names both: `append_mark_inj` for the texts, `toString_int_injective`
for the numbers. `atoi` is the reader that takes a sign and digits and nothing else.
Numbers of a fixed width need no mark: they are read back by counting, and a number that
is too long for its width leaves a digit behind.
-/

namespace SemStreams

open List

/-! ## Texts before a mark -/

variable {α : Type*} {a a' b b' : List α} {mark : α}

theorem takeWhile_mark [DecidableEq α] (h : mark ∉ a) :
    (a ++ mark :: b).takeWhile (· ≠ mark) = a ∧ (a ++ mark :: b).dropWhile (· ≠ mark) = mark :: b := by
  have hall : ∀ c ∈ a, decide (c ≠ mark) := by
    intro c hc
    simpa using fun heq : c = mark => h (heq ▸ hc)
  constructor
  · rw [takeWhile_append_of_pos hall, takeWhile_cons_of_neg (by simp), append_nil]
  · rw [dropWhile_append_of_pos hall, dropWhile_cons_of_neg (by simp)]

/-- Where the first part is free of the mark, both parts are read back. -/
theorem append_mark_inj (h : mark ∉ a) (h' : mark ∉ a') (heq : a ++ mark :: b = a' ++ mark :: b') :
    a = a' ∧ b = b' := by
  classical
  obtain ⟨htake, hdrop⟩ := takeWhile_mark (b := b) h
  obtain ⟨htake', hdrop'⟩ := takeWhile_mark (b := b') h'
  rw [heq] at htake hdrop
  rw [htake'] at htake
  rw [hdrop', List.cons.injEq] at hdrop
  exact ⟨htake.symm, hdrop.2.symm⟩

/-! ## Integers -/

theorem toList_toString_ofNat (n : ℕ) : (toString (n : ℤ)).toList = Nat.toDigits 10 n := by
  show (Nat.repr n).toList = _
  simp [Nat.repr]

theorem toList_toString_negSucc (n : ℕ) :
    (toString (Int.negSucc n)).toList = '-' :: Nat.toDigits 10 (n + 1) := by
  show ("-" ++ Nat.repr (n + 1)).toList = _
  simp [Nat.repr]

theorem isDigit_of_mem_toDigits (h : c ∈ Nat.toDigits 10 n) : c.isDigit :=
  Nat.isDigit_of_mem_toDigits (by decide) (by decide) h

theorem toDigits_injective : Function.Injective (Nat.toDigits 10) := by
  intro n m h
  have hread := congrArg (Nat.ofDigitChars 10 · 0) h
  simpa [Nat.ofDigitChars_toDigits] using hread

/-- A printed integer holds digits, and a minus at most. -/
theorem mem_toString_int {i : ℤ} {c : Char} (h : c ∈ (toString i).toList) :
    c = '-' ∨ c.isDigit := by
  cases i with
  | ofNat n =>
    rw [Int.ofNat_eq_natCast, toList_toString_ofNat] at h
    exact .inr (isDigit_of_mem_toDigits h)
  | negSucc n =>
    rw [toList_toString_negSucc] at h
    exact (mem_cons.1 h).imp id isDigit_of_mem_toDigits

theorem toString_int_injective : Function.Injective (toString : ℤ → String) := by
  have hminus : ∀ n m : ℕ, '-' :: Nat.toDigits 10 (n + 1) ≠ Nat.toDigits 10 m := by
    intro n m h
    have hdigit := @isDigit_of_mem_toDigits m '-' (by rw [← h]; simp)
    exact absurd hdigit (by decide)
  intro i j h
  have htext := congrArg String.toList h
  cases i with
  | ofNat n =>
    cases j with
    | ofNat m =>
      simp only [Int.ofNat_eq_natCast, toList_toString_ofNat] at htext
      rw [toDigits_injective htext]
    | negSucc m =>
      simp only [Int.ofNat_eq_natCast, toList_toString_ofNat, toList_toString_negSucc] at htext
      exact absurd htext.symm (hminus m n)
  | negSucc n =>
    cases j with
    | ofNat m =>
      simp only [Int.ofNat_eq_natCast, toList_toString_ofNat, toList_toString_negSucc] at htext
      exact absurd htext (hminus n m)
    | negSucc m =>
      simp only [toList_toString_negSucc, List.cons.injEq, true_and] at htext
      have hsucc := toDigits_injective htext
      rw [Nat.succ.inj hsucc]

/-- `strconv.Atoi`: a sign or none, then digits, within 64 bits. -/
def atoi (s : List Char) : Option ℤ :=
  let negative : Bool := s.head? = some '-'
  let digits := if s.head? = some '-' ∨ s.head? = some '+' then s.tail else s
  if digits = [] ∨ digits.all Char.isDigit = false then none
  else
    let n := Nat.ofDigitChars 10 digits 0
    if negative then if n ≤ 2 ^ 63 then some (-n) else none
    else if n < 2 ^ 63 then some n else none

/-- What was printed is read back. -/
theorem atoi_toString {n : ℕ} (h : n < 2 ^ 63) : atoi (toString (n : ℤ)).toList = some (n : ℤ) := by
  rw [toList_toString_ofNat]
  have hdigits : ∀ c ∈ Nat.toDigits 10 n, c.isDigit := fun _ => isDigit_of_mem_toDigits
  have hhead : ∀ c : Char, c.isDigit = false → (Nat.toDigits 10 n).head? ≠ some c := by
    intro c hc hhead
    have := hdigits c (mem_of_head? hhead)
    rw [hc] at this
    exact nomatch this
  have hminus := hhead '-' (by decide)
  have hplus := hhead '+' (by decide)
  have hall : (Nat.toDigits 10 n).all Char.isDigit := List.all_eq_true.2 hdigits
  simp only [atoi, hminus, hplus, or_self, if_false, decide_false, Bool.false_eq_true, hall,
    Nat.toDigits_ne_nil, Bool.true_eq_false, Nat.ofDigitChars_toDigits (b := 10) (by decide)
      (by decide), h, if_true]

theorem atoi_eq_none_of_head (h : s.head? = some c)
    (hc : c.isDigit = false) (hminus : c ≠ '-') (hplus : c ≠ '+') : atoi s = none := by
  have hmem := mem_of_head? h
  have hall : s.all Char.isDigit = false := by
    rw [List.all_eq_false]
    exact ⟨c, hmem, by simp [hc]⟩
  simp [atoi, h, hminus, hplus, hall]

/-- Digits of a number are less than a number with one digit more. -/
theorem ofDigitChars_lt (h : ∀ c ∈ l, c.isDigit) (m : ℕ) :
    Nat.ofDigitChars 10 l m < 10 ^ l.length * (m + 1) := by
  induction l generalizing m with
  | nil => simp
  | cons c l ih =>
    have hdigit : c.toNat - '0'.toNat ≤ 9 := by
      have hc := h c (by simp)
      simp only [Char.isDigit, Bool.and_eq_true, decide_eq_true_eq] at hc
      have hnine : c.toNat ≤ 57 := hc.2
      have hzero : '0'.toNat = 48 := rfl
      omega
    calc Nat.ofDigitChars 10 (c :: l) m
        = Nat.ofDigitChars 10 l (10 * m + (c.toNat - '0'.toNat)) := Nat.ofDigitChars_cons
      _ < 10 ^ l.length * (10 * m + (c.toNat - '0'.toNat) + 1) := ih (fun x hx => h x (by simp [hx])) _
      _ ≤ 10 ^ l.length * (10 * (m + 1)) := Nat.mul_le_mul_left _ (by omega)
      _ = 10 ^ (c :: l).length * (m + 1) := by rw [length_cons, Nat.pow_succ, Nat.mul_assoc]

/-! ## Fixed width -/

/-- A number in at least so many digits. -/
def fixed (w n : ℕ) : List Char :=
  List.replicate (w - (Nat.toDigits 10 n).length) '0' ++ Nat.toDigits 10 n

/-- An integer in at least so many places, the sign being one. -/
def padded (w : ℕ) (i : ℤ) : List Char :=
  if 0 ≤ i then fixed w i.toNat else '-' :: fixed (w - 1) (-i).toNat

/-- Reads so many digits. -/
def readFixed (w : ℕ) (cs : List Char) : Option (ℕ × List Char) :=
  if (cs.take w).length = w ∧ (cs.take w).all Char.isDigit then
    some (Nat.ofDigitChars 10 (cs.take w) 0, cs.drop w)
  else none

/-- Reads up to so many digits. -/
def scanNat (w : ℕ) (cs : List Char) : Option (ℕ × List Char) :=
  let digits := (cs.take w).takeWhile Char.isDigit
  if digits = [] then none else some (Nat.ofDigitChars 10 digits 0, cs.drop digits.length)

/-- Reads up to so many places, of which the first may be a sign. -/
def scanInt (w : ℕ) (cs : List Char) : Option (ℤ × List Char) :=
  match cs with
  | '-' :: cs => (scanNat (w - 1) cs).map fun (n, rest) => (-n, rest)
  | '+' :: cs => (scanNat (w - 1) cs).map fun (n, rest) => (n, rest)
  | cs => (scanNat w cs).map fun (n, rest) => (n, rest)

def expect (c : Char) : List Char → Option (List Char)
  | [] => none
  | x :: cs => if x = c then some cs else none

variable {w n : ℕ} {c : Char} {rest : List Char}

theorem expect_cons : expect c (c :: rest) = some rest := if_pos rfl

theorem expect_digit (h : x.isDigit) (hc : c.isDigit = false) :
    expect c (x :: rest) = none := by
  refine if_neg ?_
  rintro rfl
  rw [h] at hc
  cases hc

theorem isDigit_of_mem_fixed (h : c ∈ fixed w n) : c.isDigit := by
  rcases mem_append.1 h with hzero | hdigit
  · rw [eq_of_mem_replicate hzero]
    rfl
  · exact isDigit_of_mem_toDigits hdigit

theorem all_isDigit_fixed : (fixed w n).all Char.isDigit :=
  List.all_eq_true.2 fun _ => isDigit_of_mem_fixed

theorem length_fixed (hw : 0 < w) (h : n < 10 ^ w) : (fixed w n).length = w := by
  have := (Nat.length_toDigits_le_iff (by decide : 1 < 10) hw).2 h
  simp only [fixed, length_append, length_replicate]
  omega

theorem lt_length_fixed (hw : 0 < w) (h : 10 ^ w ≤ n) : w < (fixed w n).length := by
  have hlong : ¬ (Nat.toDigits 10 n).length ≤ w := by
    rw [Nat.length_toDigits_le_iff (by decide) hw]
    omega
  simp only [fixed, length_append, length_replicate]
  omega

theorem fixed_ne_nil : fixed w n ≠ [] := by
  simp [fixed, Nat.toDigits_ne_nil]

@[simp] theorem ofDigitChars_fixed : Nat.ofDigitChars 10 (fixed w n) 0 = n := by
  rw [fixed, Nat.ofDigitChars_append, Nat.ofDigitChars_replicate_zero, Nat.mul_zero,
    Nat.ofDigitChars_toDigits (by decide) (by decide)]

/-- **A number of its width is read back.** -/
theorem readFixed_fixed (hw : 0 < w) (h : n < 10 ^ w) :
    readFixed w (fixed w n ++ rest) = some (n, rest) := by
  have hlen := length_fixed hw h
  have htake : (fixed w n ++ rest).take w = fixed w n := take_left' hlen
  have hdrop : (fixed w n ++ rest).drop w = rest := drop_left' hlen
  rw [readFixed, htake, hdrop, if_pos ⟨hlen, all_isDigit_fixed⟩, ofDigitChars_fixed]

/-- A longer one leaves a digit. -/
theorem readFixed_long (hw : 0 < w) (h : 10 ^ w ≤ n) :
    ∃ m x cs, readFixed w (fixed w n ++ rest) = some (m, x :: cs) ∧ x.isDigit := by
  have hlen := lt_length_fixed hw h
  obtain ⟨x, cs, hcs⟩ := exists_cons_of_ne_nil
    (fun h => absurd (congrArg List.length h) (by simp; omega) : (fixed w n).drop w ≠ [])
  have htake : (fixed w n ++ rest).take w = (fixed w n).take w :=
    take_append_of_le_length (by omega)
  have hdrop : (fixed w n ++ rest).drop w = x :: (cs ++ rest) := by
    rw [drop_append_of_le_length (by omega), hcs, cons_append]
  have hdigits : ((fixed w n).take w).all Char.isDigit :=
    List.all_eq_true.2 fun c hc => isDigit_of_mem_fixed (mem_of_mem_take hc)
  have hx : x ∈ fixed w n := mem_of_mem_drop (hcs ▸ mem_cons_self)
  refine ⟨Nat.ofDigitChars 10 ((fixed w n).take w) 0, x, cs ++ rest, ?_, isDigit_of_mem_fixed hx⟩
  rw [readFixed, htake, hdrop, if_pos ⟨by rw [length_take]; omega, hdigits⟩]

theorem scanNat_eq_readFixed (hw : 0 < w)
    (h : readFixed w cs = some (m, rest)) : scanNat w cs = some (m, rest) := by
  unfold readFixed at h
  split at h
  · next hds =>
    have hall : (cs.take w).takeWhile Char.isDigit = cs.take w :=
      takeWhile_eq_self_iff.2 (by simpa using hds.2)
    have hne : cs.take w ≠ [] := ne_nil_of_length_pos (by omega)
    simp only [scanNat, hall, if_neg hne, hds.1]
    exact h
  · cases h

/-- A number without a sign is scanned as it is. -/
theorem scanInt_fixed (hw : 0 < w) (h : readFixed w (fixed w n ++ rest) = some (m, cs)) :
    scanInt w (fixed w n ++ rest) = some ((m : ℤ), cs) := by
  obtain ⟨x, _, hxs⟩ := exists_cons_of_ne_nil (@fixed_ne_nil w n)
  have hx : x.isDigit := @isDigit_of_mem_fixed w n x (hxs ▸ mem_cons_self)
  have hscan := scanNat_eq_readFixed hw h
  rw [hxs, cons_append] at hscan ⊢
  unfold scanInt
  split
  iterate 2
    · next heq =>
      rw [(List.cons.inj heq).1] at hx
      cases hx
  · rw [hscan]
    rfl

theorem mem_padded (h : c ∈ padded w i) : c = '-' ∨ c.isDigit := by
  unfold padded at h
  split at h
  · exact .inr (isDigit_of_mem_fixed h)
  · exact (mem_cons.1 h).imp id isDigit_of_mem_fixed

/-- **An integer of its width is scanned back.** -/
theorem scanInt_padded (hw : 1 < w) (hlow : -i < 10 ^ (w - 1)) (hhigh : i < 10 ^ w) :
    scanInt w (padded w i ++ rest) = some (i, rest) := by
  unfold padded
  split
  · next hi =>
    have hread := @readFixed_fixed w i.toNat rest (by omega) (by zify; omega)
    rw [scanInt_fixed (by omega) hread, Int.toNat_of_nonneg hi]
  · next hi =>
    have hread := @readFixed_fixed (w - 1) (-i).toNat rest (by omega) (by zify; omega)
    have hneg : -(((-i).toNat : ℕ) : ℤ) = i := by omega
    rw [cons_append, scanInt, scanNat_eq_readFixed (by omega) hread, Option.map_some]
    show some (-(((-i).toNat : ℕ) : ℤ), rest) = some (i, rest)
    rw [hneg]

/-- One that is too long leaves a digit. -/
theorem scanInt_padded_long (hw : 0 < w) (hlong : 10 ^ w ≤ i) :
    ∃ m x cs, scanInt w (padded w i ++ rest) = some (m, x :: cs) ∧ x.isDigit := by
  have hi : 0 ≤ i := Int.le_trans (by positivity) hlong
  obtain ⟨m, x, cs, hread, hx⟩ := @readFixed_long w i.toNat rest hw (by zify; omega)
  rw [padded, if_pos hi]
  exact ⟨m, x, cs, scanInt_fixed hw hread, hx⟩

end SemStreams
