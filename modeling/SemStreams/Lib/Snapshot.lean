import SemStreams.Lib.KeyedLog
/-!
# Optimistic writers of a keyed log

A writer reads a key with the revision of its last write, computes a new value
and writes it on the condition that nobody wrote the key meanwhile. A snapshot
is what it read, and `Fresh` what a snapshot says about every later log: where
the condition still holds, the value read is the value there.

`life` is the history of a key since it was last deleted.
-/

namespace SemStreams

/-- What a read returned: the value and its revision, or that there is none. -/
abbrev Snapshot (α : Type*) := Option (α × ℕ)

namespace KeyedLog

variable {κ α : Type*} [DecidableEq κ]

def snapshot (log : KeyedLog κ α) (k : κ) : Snapshot α :=
  (current log k).map fun v => (v, lastRevision log k)

/-- The condition of the write: a create wants the key absent, an update the
revision read. -/
def admits (log : KeyedLog κ α) (k : κ) : Snapshot α → Bool
  | none => (current log k).isNone
  | some (_, r) => lastRevision log k == r

/-- **A snapshot is not outdated silently.** Its revision was given out, and
while it is still the key's last one, the key holds the value read. -/
def Fresh (log : KeyedLog κ α) (k : κ) (seen : Snapshot α) : Prop :=
  ∀ v r, seen = some (v, r) →
    r ≤ log.length ∧ (lastRevision log k = r → current log k = some v)

/-- The values a key took since its last deletion, newest first. -/
def life : KeyedLog κ α → κ → List α
  | [], _ => []
  | (k', none) :: log, k => if k' = k then [] else life log k
  | (k', some v) :: log, k => if k' = k then v :: life log k else life log k

variable {log : KeyedLog κ α} {k : κ} {seen : Snapshot α}

theorem snapshot_eq_some (h : snapshot log k = some (v, r)) :
    current log k = some v ∧ r = lastRevision log k := by
  obtain ⟨_, hv', heq⟩ := Option.map_eq_some_iff.1 h
  rw [Prod.mk.injEq] at heq
  exact ⟨heq.1 ▸ hv', heq.2.symm⟩

theorem snapshot_eq_none (h : snapshot log k = none) : current log k = none :=
  Option.map_eq_none_iff.1 h

theorem fresh_snapshot (log : KeyedLog κ α) (k : κ) : Fresh log k (snapshot log k) := by
  intro v r h
  obtain ⟨hv, rfl⟩ := snapshot_eq_some h
  exact ⟨lastRevision_le_length log k, fun _ => hv⟩

theorem Fresh.cons (h : Fresh log k seen) (w : κ × Option α) : Fresh (w :: log) k seen := by
  intro v r hs
  obtain ⟨_, hcur⟩ := h v r hs
  refine ⟨by rw [List.length_cons]; omega, ?_⟩
  obtain ⟨k', _⟩ := w
  by_cases hk : k' = k
  · -- a write of the key gave it a revision that was never read
    subst hk
    rw [lastRevision_cons_self]
    omega
  · rw [lastRevision_cons_of_ne hk, current_cons_of_ne hk]
    exact hcur

/-- **An admitted write applies to the value it was computed from.** -/
theorem Fresh.current_of_admits (h : Fresh log k seen) (ha : admits log k seen) :
    current log k = seen.map Prod.fst := by
  match seen with
  | none => exact Option.isNone_iff_eq_none.1 ha
  | some (v, r) => exact (h v r rfl).2 (beq_iff_eq.1 ha)

theorem current_eq_head?_life (log : KeyedLog κ α) (k : κ) :
    current log k = (life log k).head? := by
  induction log with
  | nil => rfl
  | cons w log ih =>
    obtain ⟨k', v⟩ := w
    by_cases hk : k' = k
    · cases v <;> simp [current, life, hk]
    · cases v <;> simp [current, life, hk, ih]

theorem life_write_self : life ((k, some v) :: log) k = v :: life log k := if_pos rfl

theorem life_delete_self : life ((k, none) :: log) k = [] := if_pos rfl

theorem life_cons_of_ne (h : k' ≠ k) : life ((k', w) :: log) k = life log k := by
  cases w <;> exact if_neg h

end KeyedLog

end SemStreams
