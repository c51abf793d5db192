import Mathlib.Data.List.Basic
import Mathlib.Order.Basic
/-!
# revlag — the low-water mark of what is in flight

Every delivered revision is observed before it is dispatched and completed
when its work is over, in any order. `indexed` is the highest revision such
that every delivered revision up to it is complete: the highest delivered one
when nothing is in flight, else the one before the lowest in flight. Beside it
stands the commit time of the newest revision known to be covered.

A revision in flight is positive and was delivered; both are part of the type.
-/

namespace SemStreams.Revlag

open List

/-- `inflight`: the key a revision belongs to and its commit time, the zero time
where unknown. -/
structure Inflight (κ : Type*) where
  key : κ
  commitAt : ℕ
deriving DecidableEq

/-- **`Watermark`.** -/
structure Watermark (κ : Type*) where
  observedHigh : ℕ
  observedHighAt : ℕ
  pending : List (ℕ × Inflight κ)
  coveredRev : ℕ
  coveredAt : ℕ
  pending_pos : ∀ p ∈ pending, 0 < p.1
  pending_le : ∀ p ∈ pending, p.1 ≤ observedHigh

open Watermark

namespace Watermark

variable {κ : Type*}

def new : Watermark κ where
  observedHigh := 0
  observedHighAt := 0
  pending := []
  coveredRev := 0
  coveredAt := 0
  pending_pos := nofun
  pending_le := nofun

/-- The lowest revision of a list that is not empty. -/
def minRev : List (ℕ × Inflight κ) → ℕ
  | [] => 0
  | [p] => p.1
  | p :: ps => min p.1 (minRev ps)

/-- `indexedLocked`, on the fields it reads. -/
def indexedOf (observedHigh : ℕ) (pending : List (ℕ × Inflight κ)) : ℕ :=
  if pending = [] then observedHigh else minRev pending - 1

def indexed (w : Watermark κ) : ℕ := indexedOf w.observedHigh w.pending

/-- `Observe`. Revision `0` is no revision. -/
def observe (w : Watermark κ) (r : ℕ) (key : κ) (commitAt : ℕ) : Watermark κ :=
  if hr : r = 0 then w
  else
    { w with
      observedHigh := max w.observedHigh r
      observedHighAt := if r > w.observedHigh then commitAt else w.observedHighAt
      pending := w.pending.filter (fun p => p.1 ≠ r) ++ [(r, ⟨key, commitAt⟩)]
      pending_pos := by
        intro p hp
        rw [mem_append, mem_singleton] at hp
        rcases hp with hp | rfl
        · exact w.pending_pos p (mem_of_mem_filter hp)
        · exact Nat.pos_of_ne_zero hr
      pending_le := by
        intro p hp
        rw [mem_append, mem_singleton] at hp
        rcases hp with hp | rfl
        · exact Nat.le_trans (w.pending_le p (mem_of_mem_filter hp)) (Nat.le_max_left _ _)
        · exact Nat.le_max_right _ _ }

/-- `advanceCoveredLocked`: exact where nothing is left in flight, else moved by
the revisions just drained at or below the floor. -/
def advanceCovered (w : Watermark κ) (drained : List (ℕ × Inflight κ)) : Watermark κ :=
  if w.pending = [] then
    if w.observedHigh > w.coveredRev then
      { w with coveredRev := w.observedHigh, coveredAt := w.observedHighAt }
    else w
  else
    drained.foldl (fun w p =>
      if p.1 ≤ w.indexed ∧ p.1 > w.coveredRev then
        { w with coveredRev := p.1, coveredAt := p.2.commitAt }
      else w) w

variable [DecidableEq κ]

/-- `Complete` is about this revision in flight. -/
def drains (key : κ) (rev : ℕ) (p : ℕ × Inflight κ) : Bool := p.2.key = key && p.1 ≤ rev

def complete (w : Watermark κ) (key : κ) (rev : ℕ) : Watermark κ :=
  let drained := w.pending.filter (drains key rev)
  if drained = [] then w
  else
    advanceCovered
      { w with
        pending := w.pending.filter fun p => !drains key rev p
        pending_pos := fun p hp => w.pending_pos p (mem_of_mem_filter hp)
        pending_le := fun p hp => w.pending_le p (mem_of_mem_filter hp) }
      drained

end Watermark

variable {κ : Type*} {w : Watermark κ} {p : ℕ × Inflight κ}

theorem minRev_le {pending : List (ℕ × Inflight κ)} (h : p ∈ pending) : minRev pending ≤ p.1 := by
  induction pending with
  | nil => exact absurd h not_mem_nil
  | cons q pending ih =>
    cases pending with
    | nil =>
      rw [mem_singleton] at h
      rw [h]
      exact Nat.le_refl _
    | cons q' pending =>
      rcases mem_cons.1 h with rfl | h
      · exact Nat.min_le_left _ _
      · exact Nat.le_trans (Nat.min_le_right _ _) (ih h)

/-- **Nothing at or below the watermark is in flight.** -/
theorem lt_of_mem_pending (h : p ∈ w.pending) : w.indexed < p.1 := by
  have hpos := w.pending_pos p h
  have hmin := minRev_le h
  unfold indexed indexedOf
  rw [if_neg (ne_nil_of_mem h)]
  omega

theorem indexed_le_observedHigh (w : Watermark κ) : w.indexed ≤ w.observedHigh := by
  unfold indexed indexedOf
  split
  · exact Nat.le_refl _
  rename_i hne
  obtain ⟨p, hp⟩ := exists_mem_of_ne_nil _ hne
  have hmin := minRev_le hp
  have hle := w.pending_le p hp
  omega

theorem observe_observedHigh (w : Watermark κ) (hr : r ≠ 0) (key : κ) (at_ : ℕ) :
    (w.observe r key at_).observedHigh = max w.observedHigh r := by
  unfold observe
  rw [dif_neg hr]

theorem mem_pending_observe (w : Watermark κ) (hr : r ≠ 0) (key : κ) (at_ : ℕ) :
    p ∈ (w.observe r key at_).pending ↔ p ∈ w.pending ∧ p.1 ≠ r ∨ p = (r, ⟨key, at_⟩) := by
  unfold observe
  rw [dif_neg hr]
  simp

theorem advanceCovered_pending (w : Watermark κ) (drained : List (ℕ × Inflight κ)) :
    (w.advanceCovered drained).pending = w.pending ∧
      (w.advanceCovered drained).observedHigh = w.observedHigh ∧
      (w.advanceCovered drained).observedHighAt = w.observedHighAt := by
  unfold advanceCovered
  split
  · split <;> exact ⟨rfl, rfl, rfl⟩
  · clear * -
    induction drained generalizing w with
    | nil => exact ⟨rfl, rfl, rfl⟩
    | cons p drained ih =>
      rw [foldl_cons]
      split <;> exact ih _

variable [DecidableEq κ]

/-- **Completion drains a key's revisions up to one, and no others.** -/
theorem complete_pending (w : Watermark κ) (key : κ) (rev : ℕ) :
    (w.complete key rev).pending = w.pending.filter fun p => !drains key rev p := by
  unfold complete
  dsimp only
  split
  · rename_i hnone
    refine (filter_eq_self.2 ?_).symm
    intro p hp
    have := filter_eq_nil_iff.1 hnone p hp
    simpa using this
  · exact (advanceCovered_pending _ _).1

theorem complete_observedHigh (w : Watermark κ) (key : κ) (rev : ℕ) :
    (w.complete key rev).observedHigh = w.observedHigh := by
  unfold complete
  dsimp only
  split
  · rfl
  · exact (advanceCovered_pending _ _).2.1

theorem complete_observedHighAt (w : Watermark κ) (key : κ) (rev : ℕ) :
    (w.complete key rev).observedHighAt = w.observedHighAt := by
  unfold complete
  dsimp only
  split
  · rfl
  · exact (advanceCovered_pending _ _).2.2

end SemStreams.Revlag
