import Mathlib.Data.Nat.Notation
/-!
# Chains of checks

A handler refuses a request at the first check that fails. What an accepted
request tells is peeled off check by check.
-/

namespace SemStreams

variable {ε α : Type*} {c : Prop} [Decidable c] {err : ε} {x : Except ε α} {a : α}

theorem ok_of_check (h : (if c then .error err else x) = .ok a) : ¬c ∧ x = .ok a := by
  by_cases hc : c
  · rw [if_pos hc] at h
    cases h
  · rw [if_neg hc] at h
    exact ⟨hc, h⟩

end SemStreams
