import Mathlib.Data.List.Basic
/-!
# A log of keyed writes

The writes of a store in the order they were made, newest first; a write is a
key with its new value, `none` for a deletion. The revision of a write is its
number from one on, so the newest write of a log has the length of the log as
its revision.
-/

namespace SemStreams

/-- **The writes of a store**, newest first. -/
abbrev KeyedLog (κ α : Type*) := List (κ × Option α)

namespace KeyedLog

variable {κ α : Type*}

def writeAt : KeyedLog κ α → ℕ → Option (κ × Option α)
  | [], _ => none
  | w :: log, r => if r = log.length + 1 then some w else writeAt log r

variable [DecidableEq κ]

/-- The value under a key. -/
def current : KeyedLog κ α → κ → Option α
  | [], _ => none
  | w :: log, k => if w.1 = k then w.2 else current log k

/-- The revision of a key's last write, `0` when there is none. -/
def lastRevision : KeyedLog κ α → κ → ℕ
  | [], _ => 0
  | w :: log, k => if w.1 = k then log.length + 1 else lastRevision log k

variable {log : KeyedLog κ α} {w : κ × Option α} {k : κ} {r : ℕ}

theorem lastRevision_le_length (log : KeyedLog κ α) (k : κ) : lastRevision log k ≤ log.length := by
  induction log with
  | nil => exact Nat.le_refl 0
  | cons w log ih =>
    unfold lastRevision
    rw [List.length_cons]
    split <;> omega

variable {v : Option α}

theorem current_cons_self : current ((k, v) :: log) k = v := if_pos rfl

theorem current_cons_of_ne (h : k' ≠ k) : current ((k', v) :: log) k = current log k := if_neg h

theorem lastRevision_cons_self : lastRevision ((k, v) :: log) k = log.length + 1 := if_pos rfl

theorem lastRevision_cons_of_ne (h : k' ≠ k) :
    lastRevision ((k', v) :: log) k = lastRevision log k := if_neg h

omit [DecidableEq κ] in
theorem writeAt_le_length (h : writeAt log r = some w) : r ≤ log.length := by
  induction log with
  | nil => cases h
  | cons w' log ih =>
    unfold writeAt at h
    rw [List.length_cons]
    split at h
    · omega
    · have := ih h
      omega

omit [DecidableEq κ] in
/-- A later write leaves the earlier ones. -/
theorem writeAt_cons (h : writeAt log r = some w) :
    writeAt (w' :: log) r = some w := by
  have hle := writeAt_le_length h
  unfold writeAt
  rw [if_neg (by omega)]
  exact h

/-- A write is at most as new as the last one of its key. -/
theorem le_lastRevision (h : writeAt log r = some w) : r ≤ lastRevision log w.1 := by
  induction log with
  | nil => cases h
  | cons w' log ih =>
    unfold writeAt at h
    unfold lastRevision
    split at h
    · rename_i hr
      rw [Option.some.injEq] at h
      rw [h, if_pos rfl]
      exact Nat.le_of_eq hr
    · have hle := ih h
      have hlast := lastRevision_le_length log w.1
      split <;> omega

/-- The last write of a key is in the log. -/
theorem exists_writeAt_lastRevision (h : lastRevision log k ≠ 0) :
    ∃ v, writeAt log (lastRevision log k) = some (k, v) := by
  induction log with
  | nil => exact absurd rfl h
  | cons w log ih =>
    unfold lastRevision at h ⊢
    unfold writeAt
    split
    · rename_i hk
      rw [if_pos rfl]
      exact ⟨w.2, by rw [← hk]⟩
    · rename_i hk
      rw [if_neg hk] at h
      have hle := lastRevision_le_length log k
      rw [if_neg (by omega)]
      exact ih h

/-- The value under a key is what its last write wrote. -/
theorem writeAt_of_current {v : α} (h : current log k = some v) :
    writeAt log (lastRevision log k) = some (k, some v) := by
  induction log with
  | nil => cases h
  | cons w log ih =>
    unfold current at h
    unfold lastRevision
    split
    · rename_i hk
      rw [if_pos hk] at h
      unfold writeAt
      rw [if_pos rfl, ← h, ← hk]
    · rename_i hk
      rw [if_neg hk] at h
      exact writeAt_cons (ih h)

end KeyedLog

end SemStreams
