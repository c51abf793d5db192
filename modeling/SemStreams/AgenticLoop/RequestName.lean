import SemStreams.Lib.Decimal
import Mathlib.Data.List.DropRight
/-!
# agentic-loop — the text of a request's name

The name of a request is written `<loop>:req:<iteration>:<retry>`, and a loop
id is any text, marks included. `Parse` therefore reads from the right: the
two ordinals hold no colon, so the last two colons are theirs, and what is
left must end in `:req`. An ordinal is accepted only as it would be written.

`names_round_trip_and_order` is the result. The ordinals are machine integers:
the name that follows the last one is not the next.
-/

namespace SemStreams.RequestName

open List

/-- `looprequest.ID`; a Go `int` is 64 bits wide. -/
structure ID where
  loopID : List Char
  iteration : ℤ
  retry : ℤ
deriving DecidableEq

def itoa (i : ℤ) : List Char := (toString i).toList

def ID.string (id : ID) : List Char :=
  id.loopID ++ ":req:".toList ++ itoa id.iteration ++ ':' :: itoa id.retry

/-- The parts before and after the last colon. -/
def cutLast (text : List Char) : Option (List Char × List Char) :=
  match text.reverse.dropWhile (· ≠ ':') with
  | [] => none
  | _ :: head => some (head.reverse, (text.reverse.takeWhile (· ≠ ':')).reverse)

def ordinal (text : List Char) : Option ℤ := do
  let value ← atoi text
  if itoa value = text ∧ 0 ≤ value then some value else none

/-- What stands before `:req`. -/
def cutLoop (loopPart : List Char) : Option (List Char) :=
  if ":req".toList <:+ loopPart then some (loopPart.rdrop 4) else none

def parse (text : List Char) : Option ID := do
  let (head, retryText) ← cutLast text
  let (loopPart, iterationText) ← cutLast head
  let loopID ← cutLoop loopPart
  let iteration ← ordinal iterationText
  let retry ← ordinal retryText
  if loopID ≠ [] ∧ 1 ≤ iteration then some ⟨loopID, iteration, retry⟩ else none

/-- One more, in 64 bits. -/
def succ (i : ℤ) : ℤ := (i + 1).bmod (2 ^ 64)

def next (prev : ID) (retry : Bool) : ID :=
  if retry then { prev with retry := succ prev.retry }
  else { prev with iteration := succ prev.iteration, retry := 0 }

def compare (a b : ID) : Ordering :=
  if a.iteration < b.iteration then .lt
  else if a.iteration > b.iteration then .gt
  else if a.retry < b.retry then .lt
  else if a.retry > b.retry then .gt
  else .eq

theorem cutLast_append (h : ':' ∉ b) : cutLast (a ++ ':' :: b) = some (a, b) := by
  have hrev : (a ++ ':' :: b).reverse = b.reverse ++ ':' :: a.reverse := by simp
  obtain ⟨htake, hdrop⟩ := takeWhile_mark (b := a.reverse) (mem_reverse.not.2 h)
  rw [cutLast, hrev, htake, hdrop]
  simp

theorem eq_of_cutLast (h : cutLast text = some (a, b)) :
    text = a ++ ':' :: b := by
  unfold cutLast at h
  split at h
  · cases h
  · next c head hdrop =>
    cases h
    have hc := head?_dropWhile_not (· ≠ ':') text.reverse
    rw [hdrop] at hc
    obtain rfl : c = ':' := by simpa using hc
    have hsplit := takeWhile_append_dropWhile (p := (· ≠ ':')) (l := text.reverse)
    rw [hdrop] at hsplit
    simpa using (congrArg List.reverse hsplit).symm

theorem not_mem_itoa (i : ℤ) : ':' ∉ itoa i := by
  intro h
  rcases mem_toString_int h with h | h <;> contradiction

theorem ordinal_itoa (hi : 0 ≤ i) (hlt : i < 2 ^ 63) : ordinal (itoa i) = some i := by
  obtain ⟨n, rfl⟩ := Int.eq_ofNat_of_zero_le hi
  have hread : atoi (itoa n) = some (n : ℤ) := atoi_toString (by exact_mod_cast hlt)
  simp [ordinal, hread]

theorem itoa_of_ordinal (h : ordinal text = some i) : itoa i = text := by
  simp only [ordinal, Option.bind_eq_bind, Option.bind_eq_some_iff,
    Option.ite_none_right_eq_some] at h
  obtain ⟨_, -, ⟨htext, -⟩, ⟨⟩⟩ := h
  exact htext

theorem parse_string {id : ID} (hloop : id.loopID ≠ []) (hiteration : 1 ≤ id.iteration)
    (hretry : 0 ≤ id.retry) (hlt : id.iteration < 2 ^ 63) (hlt' : id.retry < 2 ^ 63) :
    parse id.string = some id := by
  have htext : id.string =
      (id.loopID ++ ":req".toList ++ ':' :: itoa id.iteration) ++ ':' :: itoa id.retry := by
    simp [ID.string]
  have hcut : cutLoop (id.loopID ++ ":req".toList) = some id.loopID := by
    simp [cutLoop, rdrop]
  simp only [parse, htext, cutLast_append (not_mem_itoa _), hcut, ordinal_itoa (by omega) hlt,
    ordinal_itoa hretry hlt', Option.bind_eq_bind, Option.bind_some]
  exact if_pos ⟨hloop, hiteration⟩

theorem string_of_parse {text : List Char} {id : ID} (h : parse text = some id) :
    id.string = text := by
  simp only [parse, cutLoop, Option.bind_eq_bind, Option.bind_eq_some_iff,
    Option.ite_none_right_eq_some] at h
  obtain ⟨⟨head, retryText⟩, hretry, ⟨loopPart, iterationText⟩, hiteration, _,
    ⟨hsuffix, ⟨⟩⟩, _, hi, _, hr, -, ⟨⟩⟩ := h
  obtain ⟨loop, rfl⟩ := hsuffix
  have hhead : head = _ := eq_of_cutLast hiteration
  have htexts : itoa _ = iterationText ∧ itoa _ = retryText :=
    ⟨itoa_of_ordinal hi, itoa_of_ordinal hr⟩
  rw [eq_of_cutLast hretry, hhead, ← htexts.1, ← htexts.2]
  simp [ID.string, rdrop]

/-! ## The order -/

theorem compare_eq_lt {a b : ID} : compare a b = .lt ↔
    a.iteration < b.iteration ∨ a.iteration = b.iteration ∧ a.retry < b.retry := by
  unfold compare
  split_ifs <;> simp <;> omega

theorem compare_eq_eq {a b : ID} :
    compare a b = .eq ↔ a.iteration = b.iteration ∧ a.retry = b.retry := by
  unfold compare
  split_ifs <;> simp <;> omega

theorem compare_swap (a b : ID) : compare b a = (compare a b).swap := by
  unfold compare
  split_ifs <;> first | rfl | omega

theorem succ_cases {i : ℤ} (hlow : 0 ≤ i) (hhigh : i < 2 ^ 63) :
    (succ i = i + 1 ∧ i + 1 < 2 ^ 63) ∨ (succ i < i ∧ ¬ i + 1 < 2 ^ 63) := by
  unfold succ
  by_cases h : i + 1 < 2 ^ 63
  · rw [Int.bmod_eq_of_le (by omega) (by omega)]
    exact .inl ⟨rfl, h⟩
  · obtain rfl : i = 2 ^ 63 - 1 := by omega
    exact .inr (by decide)

/-- The ordinals of a name that was minted or read. -/
structure InRange (id : ID) : Prop where
  loop : id.loopID ≠ []
  iteration : 1 ≤ id.iteration ∧ id.iteration < 2 ^ 63
  retry : 0 ≤ id.retry ∧ id.retry < 2 ^ 63

/-- **Names round-trip and are ordered**, and the next one is greater exactly
if its ordinal does not overflow. -/
theorem names_round_trip_and_order (prev : ID) (retry : Bool) :
    (∀ id, InRange id → parse id.string = some id) ∧
    (∀ text id, parse text = some id → id.string = text) ∧
    (∀ a b : ID, a.loopID = b.loopID → (compare a b = .eq ↔ a = b)) ∧
    (∀ a b, compare b a = (compare a b).swap) ∧
    (∀ a b c, compare a b = .lt → compare b c = .lt → compare a c = .lt) ∧
    (InRange prev → ((compare prev (next prev retry) = .lt ∧
      (retry = false → ∀ a, a.iteration ≤ prev.iteration → compare a (next prev retry) = .lt)) ↔
        (if retry then prev.retry else prev.iteration) + 1 < 2 ^ 63)) := by
  refine ⟨fun id h => parse_string h.loop h.iteration.1 h.retry.1 h.iteration.2 h.retry.2,
    fun _ _ => string_of_parse, fun a b hloop => ?_, compare_swap, fun a b c hab hbc => ?_,
    fun h => ?_⟩
  · cases a
    cases b
    simp_all [compare_eq_eq]
  · rw [compare_eq_lt] at *
    omega
  · cases retry with
    | true =>
      have hsucc := succ_cases h.retry.1 h.retry.2
      simp only [next, compare_eq_lt, if_true, Bool.true_eq_false, false_implies, and_true, true_and]
      omega
    | false =>
      have hsucc := succ_cases (Int.le_trans (by decide) h.iteration.1) h.iteration.2
      simp only [next, compare_eq_lt, Bool.false_eq_true, if_false, true_implies]
      constructor
      · rintro ⟨hlt, -⟩
        omega
      · intro hlt
        exact ⟨by omega, fun a ha => by omega⟩

end SemStreams.RequestName
