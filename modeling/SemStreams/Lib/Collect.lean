import Mathlib.Data.List.Perm.Subperm
import Mathlib.Data.List.Nodup
/-!
# Collecting hits

A query walks over rows, takes those that pass a test, each id once, and stops when it
has as many as were asked for. Where no fewer were asked for than there are ids, it
misses none: when it stops early, it has them all.
-/

namespace SemStreams

open List

variable {ρ ι : Type*} [DecidableEq ι] (name : ρ → ι) (p : ρ → Bool) (limit : ℕ)

/-- The hits among the rows, after those found so far. -/
def collect : List ρ → List ρ → List ρ
  | [], found => found
  | r :: rows, found =>
    if limit ≤ found.length then found
    else if p r ∧ name r ∉ found.map name then collect rows (found ++ [r])
    else collect rows found

variable {name p limit} {rows found : List ρ}

theorem subset_collect : found ⊆ collect name p limit rows found := by
  induction rows generalizing found with
  | nil => exact fun _ h => h
  | cons r rows ih =>
    rw [collect]
    split
    · exact fun _ h => h
    split
    · exact fun x hx => ih (mem_append_left _ hx)
    · exact ih

theorem mem_of_mem_collect (h : x ∈ collect name p limit rows found) :
    x ∈ found ∨ x ∈ rows ∧ p x := by
  induction rows generalizing found with
  | nil => exact .inl h
  | cons r rows ih =>
    rw [collect] at h
    split at h
    · exact .inl h
    split at h
    · next hr =>
      rcases ih h with hmem | ⟨hmem, hp⟩
      · rcases mem_append.1 hmem with hmem | hmem
        · exact .inl hmem
        · rw [mem_singleton.1 hmem]
          exact .inr ⟨by simp, hr.1⟩
      · exact .inr ⟨by simp [hmem], hp⟩
    · exact (ih h).imp id fun ⟨hmem, hp⟩ => ⟨by simp [hmem], hp⟩

theorem nodup_collect (h : (found.map name).Nodup) :
    ((collect name p limit rows found).map name).Nodup := by
  induction rows generalizing found with
  | nil => exact h
  | cons r rows ih =>
    rw [collect]
    split
    · exact h
    split
    · next hr =>
      refine ih ?_
      rw [map_append, map_singleton, ← concat_eq_append]
      exact h.concat hr.2
    · exact ih h

/-- **Nothing is missed** where the limit is no less than the number of ids. -/
theorem name_mem_collect {ids : List ι} (hlimit : ids.length ≤ limit)
    (hrows : ∀ r ∈ rows, name r ∈ ids) (hfound : found.map name ⊆ ids)
    (hnodup : (found.map name).Nodup) {x : ρ} (hx : x ∈ rows) (hp : p x) :
    name x ∈ (collect name p limit rows found).map name := by
  induction rows generalizing found with
  | nil => exact absurd hx not_mem_nil
  | cons r rows ih =>
    have hrest : ∀ r ∈ rows, name r ∈ ids := fun r' hr' => hrows r' (by simp [hr'])
    rw [collect]
    split
    · next hfull =>
      -- as many found as there are ids: all of them
      have hperm := (hnodup.subperm hfound).perm_of_length_le
        (by simpa using Nat.le_trans hlimit hfull)
      exact hperm.symm.subset (hrows x hx)
    split
    · next hr =>
      have hsub : (found ++ [r]).map name ⊆ ids := by
        rw [map_append, append_subset]
        exact ⟨hfound, by simpa using hrows r (by simp)⟩
      have hnodup' : ((found ++ [r]).map name).Nodup := by
        rw [map_append, map_singleton, ← concat_eq_append]
        exact hnodup.concat hr.2
      rcases mem_cons.1 hx with rfl | hx
      · exact List.mem_map_of_mem (subset_collect (by simp))
      · exact ih hrest hsub hnodup' hx
    · next hr =>
      rcases mem_cons.1 hx with rfl | hx
      · have hknown : name x ∈ found.map name := by
          by_contra hnot
          exact hr ⟨hp, hnot⟩
        exact map_subset _ subset_collect hknown
      · exact ih hrest hfound hnodup hx

/-- The same, for a query as it starts. -/
theorem exists_mem_collect {ids : List ι} (hlimit : ids.length ≤ limit)
    (hrows : ∀ r ∈ rows, name r ∈ ids) {x : ρ} (hx : x ∈ rows) (hp : p x) :
    ∃ y ∈ collect name p limit rows [], name y = name x := by
  have hmem := @name_mem_collect _ _ _ name p limit rows [] ids hlimit hrows
    (nil_subset _) nodup_nil x hx hp
  exact List.mem_map.1 hmem

end SemStreams
