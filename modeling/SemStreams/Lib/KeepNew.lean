import Mathlib.Data.List.Nodup
import Mathlib.Data.List.Count
/-!
# Keeping the elements with a new key

`keepNew key seen` keeps the elements whose key is neither in `seen` nor the key
of an element kept before: the loop over a set of seen keys. What it keeps has
pairwise different keys, none of them seen, and every key it drops is there
already.
-/

namespace SemStreams

open List

variable {α κ : Type*} [DecidableEq κ] (key : α → κ)

/-- Keeps the elements with a key that is new. -/
def keepNew (seen : List κ) : List α → List α
  | [] => []
  | x :: xs => if key x ∈ seen then keepNew seen xs else x :: keepNew (key x :: seen) xs

variable {key} {seen : List κ} {xs : List α} {x : α}

theorem keepNew_cons : keepNew key seen (x :: xs) =
      if key x ∈ seen then keepNew key seen xs else x :: keepNew key (key x :: seen) xs := rfl

theorem mem_of_mem_keepNew (h : x ∈ keepNew key seen xs) : x ∈ xs ∧ key x ∉ seen := by
  induction xs generalizing seen with
  | nil => exact absurd h not_mem_nil
  | cons y ys ih =>
    rw [keepNew_cons] at h
    split at h
    · obtain ⟨hmem, hnew⟩ := ih h
      exact ⟨mem_cons_of_mem y hmem, hnew⟩
    · rename_i hy
      rcases mem_cons.1 h with rfl | h
      · exact ⟨mem_cons_self, hy⟩
      · obtain ⟨hmem, hnew⟩ := ih h
        exact ⟨mem_cons_of_mem y hmem, fun hs => hnew (mem_cons_of_mem _ hs)⟩

theorem nodup_keepNew : ((keepNew key seen xs).map key).Nodup := by
  induction xs generalizing seen with
  | nil => exact nodup_nil
  | cons y ys ih =>
    rw [keepNew_cons]
    split
    · exact ih
    rw [map_cons, nodup_cons]
    refine ⟨fun hmem => ?_, ih⟩
    obtain ⟨z, hz, hkey⟩ := List.mem_map.1 hmem
    exact (mem_of_mem_keepNew hz).2 (hkey ▸ mem_cons_self)

/-- **No key is lost.** -/
theorem key_mem_keepNew (h : x ∈ xs) : key x ∈ seen ++ (keepNew key seen xs).map key := by
  induction xs generalizing seen with
  | nil => exact absurd h not_mem_nil
  | cons y ys ih =>
    rw [keepNew_cons]
    split
    · rename_i hy
      rcases mem_cons.1 h with rfl | h
      · exact mem_append_left _ hy
      · exact ih h
    · rcases mem_cons.1 h with rfl | h
      · exact mem_append_right _ (by simp)
      have hmem : key x ∈ (key y :: seen) ++ (keepNew key (key y :: seen) ys).map key := ih h
      rw [cons_append, mem_cons, mem_append] at hmem
      rw [map_cons, mem_append, mem_cons]
      tauto

theorem length_keepNew_le : (keepNew key seen xs).length ≤ xs.length := by
  induction xs generalizing seen with
  | nil => exact Nat.le_refl 0
  | cons y ys ih =>
    rw [keepNew_cons]
    split
    · exact Nat.le_succ_of_le ih
    · exact Nat.succ_le_succ ih

theorem keepNew_eq_nil (h : ∀ x ∈ xs, key x ∈ seen) : keepNew key seen xs = [] := by
  induction xs with
  | nil => rfl
  | cons y ys ih =>
    rw [keepNew_cons, if_pos (h y mem_cons_self)]
    exact ih fun x hx => h x (mem_cons_of_mem y hx)

theorem keepNew_of_nodup (h : (xs.map key).Nodup) (hnew : ∀ x ∈ xs, key x ∉ seen) :
    keepNew key seen xs = xs := by
  induction xs generalizing seen with
  | nil => rfl
  | cons y ys ih =>
    rw [map_cons, nodup_cons] at h
    rw [keepNew_cons, if_neg (hnew y mem_cons_self), ih h.2]
    intro x hx hmem
    rcases mem_cons.1 hmem with heq | hseen
    · exact h.1 (heq ▸ List.mem_map_of_mem hx)
    · exact hnew x (mem_cons_of_mem y hx) hseen

/-- Only the seen keys that occur matter. -/
theorem keepNew_congr (h : ∀ x ∈ xs, key x ∈ seen ↔ key x ∈ seen') :
    keepNew key seen xs = keepNew key seen' xs := by
  induction xs generalizing seen seen' with
  | nil => rfl
  | cons y ys ih =>
    have hys : ∀ x ∈ ys, key x ∈ seen ↔ key x ∈ seen' := fun x hx => h x (mem_cons_of_mem y hx)
    rw [keepNew_cons, keepNew_cons, ih hys]
    simp only [h y mem_cons_self]
    split
    · rfl
    · exact congrArg (y :: ·) (ih fun x hx => by simp [hys x hx])

/-- A part of the elements that the keys tell apart is kept on its own. -/
theorem filter_keepNew (hp : ∀ x y, key x = key y → p x = p y) :
    (keepNew key seen xs).filter p = keepNew key seen (xs.filter p) := by
  induction xs generalizing seen with
  | nil => rfl
  | cons y ys ih =>
    rw [keepNew_cons, filter_cons]
    by_cases hy : key y ∈ seen
    · rw [if_pos hy, ih]
      split
      · rw [keepNew_cons, if_pos hy]
      · rfl
    · rw [if_neg hy, filter_cons]
      split
      · rw [keepNew_cons, if_neg hy, ih]
      · next hpy =>
        rw [ih]
        refine keepNew_congr fun x hx => ?_
        have hne : key x ≠ key y := fun heq => hpy (hp x y heq ▸ (mem_filter.1 hx).2)
        simp [hne]

end SemStreams
