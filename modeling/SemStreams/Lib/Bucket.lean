import Mathlib.Data.Option.Basic
import Mathlib.Data.Nat.Basic
import Mathlib.Order.Basic
/-!
# A revisioned key-value bucket

A bucket numbers its writes: every write, a deletion included, takes the
next number of one sequence, and an entry carries the number of the write
that produced it as its revision. Reads return the last committed entry.

The bound `revision_le` is part of the type, so no entry is ever newer
than the sequence.
-/

namespace SemStreams

open Function Option

/-- The last write of a key: its revision, and the value, `none` when the
write was a deletion. -/
structure BucketEntry (α : Type*) where
  revision : ℕ
  value : Option α
deriving DecidableEq

/-- The answer of a store: an error leaves open whether the call landed. -/
inductive StoreAnswer
  | ok
  | failed (landed : Bool)
deriving DecidableEq

/-- **A bucket of values of type `α` under keys of type `κ`.** -/
structure Bucket (κ α : Type*) where
  /-- The number of the last write of the bucket. -/
  lastSeq : ℕ
  /-- The last write of each key; `none` for a key never written. -/
  entry : κ → Option (BucketEntry α)
  revision_le : ∀ k e, entry k = some e → e.revision ≤ lastSeq

namespace Bucket

variable {κ α : Type*}

/-- A bucket nothing was written to. -/
def empty : Bucket κ α where
  lastSeq := 0
  entry := fun _ => none
  revision_le := by simp

/-- The revision of a key's last write, `0` when there is none. -/
def revision (b : Bucket κ α) (k : κ) : ℕ := ((b.entry k).map BucketEntry.revision).getD 0

/-- The value stored under a key, with its revision. -/
def get (b : Bucket κ α) (k : κ) : Option (α × ℕ) :=
  (b.entry k).bind fun e => e.value.map fun v => (v, e.revision)

theorem revision_le_lastSeq (b : Bucket κ α) (k : κ) : b.revision k ≤ b.lastSeq := by
  unfold revision
  cases h : b.entry k with
  | none => simp
  | some e => exact b.revision_le k e h

theorem get_revision {b : Bucket κ α} {k : κ} {v : α} {r : ℕ} (h : b.get k = some (v, r)) :
    b.revision k = r := by
  unfold get at h
  unfold revision
  cases he : b.entry k with
  | none => simp [he] at h
  | some e =>
    simp only [he, bind_some, map_eq_some_iff, Prod.mk.injEq] at h
    obtain ⟨w, -, -, hr⟩ := h
    exact hr

variable [DecidableEq κ]

/-- One write of a key: the next number of the sequence. `none` deletes. -/
def write (b : Bucket κ α) (k : κ) (v : Option α) : Bucket κ α where
  lastSeq := b.lastSeq + 1
  entry := update b.entry k (some ⟨b.lastSeq + 1, v⟩)
  revision_le := by
    intro k' e he
    by_cases hk : k' = k
    · subst hk
      rw [update_self, Option.some.injEq] at he
      exact he ▸ le_rfl
    · rw [update_of_ne hk] at he
      exact Nat.le_succ_of_le (b.revision_le k' e he)

variable {b : Bucket κ α} {k k' : κ} {v : Option α}

@[simp] theorem write_revision_self : (b.write k v).revision k = b.lastSeq + 1 := by
  simp [revision, write]

theorem write_revision_of_ne (h : k' ≠ k) : (b.write k v).revision k' = b.revision k' := by
  simp [revision, write, update_of_ne h]

@[simp] theorem write_get_self : (b.write k v).get k = v.map fun w => (w, b.lastSeq + 1) := by
  simp [get, write]

theorem write_get_of_ne (h : k' ≠ k) : (b.write k v).get k' = b.get k' := by
  simp [get, write, update_of_ne h]

/-- A write never lowers a key's revision. -/
theorem revision_le_write : b.revision k' ≤ (b.write k v).revision k' := by
  by_cases h : k' = k
  · subst h
    rw [write_revision_self]
    exact Nat.le_succ_of_le (b.revision_le_lastSeq k')
  · rw [write_revision_of_ne h]

end Bucket

end SemStreams
