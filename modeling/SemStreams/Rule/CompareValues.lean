import SemStreams.Lib.Decimal
import SemStreams.Rule.TransitionCondition
import Mathlib.Data.String.Basic
/-!
# Rules — the order of field values

Two values are compared as numbers where both are numbers, and as texts otherwise. Each of the two
is an order; of three values of which two are numbers, the one between them can be taken for a text
that lies the other way round.
-/

namespace SemStreams.Rule

open SemStreams.Graph

/-- `compareValuesWithError`; it has no error to return. -/
def Values.compareValues (v : Values) (a b : Object) : ℤ :=
  match v.toFloat64 a, v.toFloat64 b with
  | some x, some y => if x < y then -1 else if x > y then 1 else 0
  | _, _ => if v.format a < v.format b then -1 else if v.format a > v.format b then 1 else 0

def Values.numbers (v : Values) (values : List Object) : ℕ :=
  values.countP fun a => (v.toFloat64 a).isSome

variable {α : Type*} [LinearOrder α] {x y : α}

/-- The comparison of the two ways, over any order. -/
def sign (x y : α) : ℤ := if x < y then -1 else if x > y then 1 else 0

theorem sign_swap : sign y x = -sign x y := by
  unfold sign
  rcases lt_trichotomy x y with h | h | h <;> simp [h, h.not_gt]

theorem sign_nonpos : sign x y ≤ 0 ↔ x ≤ y := by
  unfold sign
  rcases lt_trichotomy x y with h | h | h <;> simp [h, h.le, h.not_gt]

theorem Values.compareValues_eq (v : Values) (a b : Object) : v.compareValues a b =
    match v.toFloat64 a, v.toFloat64 b with
    | some x, some y => sign x y
    | _, _ => sign (v.format a) (v.format b) := rfl

/-- **Comparisons of two values are consistent**: each gives one of less, equal and greater, and the
opposite where the values are swapped. **Of three values** less-or-equal is transitive unless
exactly two of them are numbers. -/
theorem compareValues_order (v : Values) : (∀ a, v.compareValues a a = 0) ∧
    (∀ a b, v.compareValues a b ∈ [-1, 0, 1] ∧ v.compareValues b a = -v.compareValues a b) ∧
    ∀ a b c, v.numbers [a, b, c] ≠ 2 →
      v.compareValues a b ≤ 0 → v.compareValues b c ≤ 0 → v.compareValues a c ≤ 0 := by
  refine ⟨fun a => ?_, fun a b => ⟨?_, ?_⟩, fun a b c hnumbers => ?_⟩
  · unfold Values.compareValues
    cases v.toFloat64 a <;> simp
  · unfold Values.compareValues
    split <;> split_ifs <;> simp
  · simp only [Values.compareValues_eq]
    cases v.toFloat64 a <;> cases v.toFloat64 b <;> exact sign_swap
  · simp only [Values.compareValues_eq]
    cases ha : v.toFloat64 a <;> cases hb : v.toFloat64 b <;> cases hc : v.toFloat64 c <;>
      simp only [sign_nonpos] <;>
      first
      | exact le_trans
      | simp [Values.numbers, ha, hb, hc] at hnumbers

/-- Values as their texts, of which the digits are numbers. -/
def digitValues : Values where
  toFloat64 a := match a with | .text s | .json s => (atoi s.toList).map (↑)
  format | .text s | .json s => s
  format_text := plainValues.format_text
  toFloat64_text a := by cases a <;> rfl

theorem compareValues_order_texts : digitValues.compareValues (.text "alpha") (.text "gamma") ≤ 0 :=
  (compareValues_order digitValues).2.2 (.text "alpha") (.text "beta") (.text "gamma")
    (by decide +kernel) (by decide +kernel) (by decide +kernel)

/-- **The number 10 comes before the text `5x`, which comes before 9.** -/
theorem comparisons_cycle : digitValues.compareValues (.json "10") (.text "5x") < 0 ∧
    digitValues.compareValues (.text "5x") (.json "9") < 0 ∧
    digitValues.compareValues (.json "9") (.json "10") < 0 := by
  decide +kernel

end SemStreams.Rule
