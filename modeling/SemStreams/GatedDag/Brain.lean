import Mathlib.Data.List.Sort
/-!
# Gated DAG — the decision brain

A unit's status is derived from marker membership alone: nothing is stored, so
nothing can go stale. `evaluate` gives every unit its status and says whether it
may be dispatched, which is when it is ready and all its prerequisites are done.
-/

namespace SemStreams.GatedDag

inductive Status
  | ready
  | done
  | blocked
  deriving DecidableEq

/-- The units that carry each marker. -/
structure MarkerSet where
  completed : List String
  failed : List String
  dirtied : List String

/-- `DeriveStatus`. A dirtied unit must run again whatever else it carries, and
a failure beats a completion. -/
def deriveStatus (id : String) (m : MarkerSet) : Status :=
  if id ∈ m.dirtied then .ready
  else if id ∈ m.failed then .blocked
  else if id ∈ m.completed then .done
  else .ready

structure Decision where
  unitID : String
  status : Status
  dispatchable : Bool
  reason : String

/-- `decideUnit`: a ready unit waits for all its prerequisites, and the first
one that is not done is the reason. -/
def decideUnit (id : String) (dependsOn : String → List String) (m : MarkerSet) : Decision :=
  match deriveStatus id m with
  | .done => ⟨id, .done, false, "already complete"⟩
  | .blocked => ⟨id, .blocked, false, "failed — awaiting recovery"⟩
  | .ready =>
    match (dependsOn id).find? fun dep => deriveStatus dep m != .done with
    | some dep => ⟨id, .ready, false, "waiting on prerequisite " ++ dep⟩
    | none => ⟨id, .ready, true, "ready"⟩

/-- `Evaluate`: one decision a unit, sorted by unit. -/
def evaluate (unitIDs : List String) (dependsOn : String → List String) (m : MarkerSet) :
    List Decision :=
  (unitIDs.map fun id => decideUnit id dependsOn m).insertionSort fun a b => a.unitID ≤ b.unitID

variable {u : String} {unitIDs : List String} {dependsOn : String → List String} {m : MarkerSet}

@[simp] theorem unitID_decideUnit : (decideUnit u dependsOn m).unitID = u := by
  unfold decideUnit
  split
  · rfl
  · rfl
  · split <;> rfl

theorem ready_of_dispatchable (h : (decideUnit u dependsOn m).dispatchable) :
    deriveStatus u m = .ready := by
  unfold decideUnit at h
  split at h
  · cases h
  · cases h
  · assumption

/-- A ready unit without the dirtied marker carries no terminal one. -/
theorem not_terminal_of_ready (h : deriveStatus u m = .ready) (hd : u ∉ m.dirtied) :
    u ∉ m.completed ∧ u ∉ m.failed := by
  unfold deriveStatus at h
  rw [if_neg hd] at h
  split at h
  · cases h
  next hf =>
  split at h
  · cases h
  · next hc => exact ⟨hc, hf⟩

theorem evaluate_perm :
    (evaluate unitIDs dependsOn m).Perm (unitIDs.map fun id => decideUnit id dependsOn m) :=
  List.perm_insertionSort _ _

theorem mem_evaluate :
    d ∈ evaluate unitIDs dependsOn m ↔ ∃ id ∈ unitIDs, decideUnit id dependsOn m = d := by
  rw [evaluate_perm.mem_iff, List.mem_map]

/-- One decision a unit. -/
theorem nodup_evaluate (h : unitIDs.Nodup) :
    ((evaluate unitIDs dependsOn m).map Decision.unitID).Nodup := by
  rw [(evaluate_perm.map _).nodup_iff, List.map_map]
  have hid : (Decision.unitID ∘ fun id => decideUnit id dependsOn m) = id := by
    funext id
    exact unitID_decideUnit
  rw [hid, List.map_id]
  exact h

end SemStreams.GatedDag
