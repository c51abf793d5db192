import Mathlib.Data.List.AList
/-!
# Slots

Calls in progress are kept in slots, a function `ι → Option β` that is
`none` where no call runs. A step fills, changes or frees one slot, so a
fact about every running call has to be shown for that slot only. The same holds of calls
that are kept in a finite map.
-/

namespace SemStreams

open Function

variable {ι β : Type*} [DecidableEq ι] {f : ι → Option β} {i : ι} {P : ι → β → Prop} {v : Option β}
  {b : β}

/-- A filled slot stays when a free one is written. -/
theorem slot_of_free (hfree : f i = none) (hj : f j = some b) :
    update f i v j = some b := by
  have hji : j ≠ i := ne_of_apply_ne f (by simp [hfree, hj])
  rw [update_of_ne hji, hj]

/-- A fact about every filled slot, after one slot was written. -/
theorem forall_slot_update (hv : ∀ b, v = some b → P i b) (hf : ∀ j b, f j = some b → P j b) :
    ∀ j b, update f i v j = some b → P j b :=
  (forall_update_iff f fun j w => ∀ b, w = some b → P j b).2 ⟨hv, fun j _ => hf j⟩

/-- The same where the slot is freed. -/
theorem forall_slot_free (hf : ∀ j b, f j = some b → P j b) :
    ∀ j b, update f i none j = some b → P j b :=
  forall_slot_update (by simp) hf

/-- The same where the slot is filled with `b`. -/
theorem forall_slot_fill (hb : P i b) (hf : ∀ j b, f j = some b → P j b) :
    ∀ j c, update f i (some b) j = some c → P j c :=
  forall_slot_update (by rintro c ⟨⟩; exact hb) hf

variable {m : AList fun _ : ι => β} {j : ι} {b' : β}

/-- What is found after a value was written is that value, or was there before. -/
theorem lookup_insert_eq_some (h : (m.insert i b).lookup j = some b') :
    (j = i ∧ b' = b) ∨ (j ≠ i ∧ m.lookup j = some b') := by
  by_cases hji : j = i
  · subst hji
    rw [AList.lookup_insert, Option.some.injEq] at h
    exact .inl ⟨rfl, h.symm⟩
  · rw [AList.lookup_insert_ne hji] at h
    exact .inr ⟨hji, h⟩

/-- What is found after a value was taken out was there before, elsewhere. -/
theorem lookup_erase_eq_some (h : (m.erase i).lookup j = some b') :
    j ≠ i ∧ m.lookup j = some b' := by
  by_cases hji : j = i
  · subst hji
    rw [AList.lookup_erase] at h
    cases h
  · rw [AList.lookup_erase_ne hji] at h
    exact ⟨hji, h⟩

/-- A fact about every value of a map, after one was written. -/
theorem forall_lookup_insert (hb : P i b) (hm : ∀ j b, m.lookup j = some b → P j b) :
    ∀ j b', (m.insert i b).lookup j = some b' → P j b' := by
  intro j b' hj
  rcases lookup_insert_eq_some hj with ⟨rfl, rfl⟩ | ⟨-, hbefore⟩
  · exact hb
  · exact hm j b' hbefore

/-- The same where one was taken out. -/
theorem forall_lookup_erase (hm : ∀ j b, m.lookup j = some b → P j b) :
    ∀ j b', (m.erase i).lookup j = some b' → P j b' :=
  fun j b' hj => hm j b' (lookup_erase_eq_some hj).2

/-- One slot of a finite map filled, or freed. -/
def setSlot (m : AList fun _ : ι => β) (i : ι) (v : Option β) : AList fun _ : ι => β :=
  match v with
  | some b => m.insert i b
  | none => m.erase i

@[simp] theorem lookup_setSlot_self : (setSlot m i v).lookup i = v := by
  cases v with
  | none => exact AList.lookup_erase _ _
  | some b => exact AList.lookup_insert _

theorem lookup_setSlot_ne (h : j ≠ i) : (setSlot m i v).lookup j = m.lookup j := by
  cases v with
  | none => exact AList.lookup_erase_ne h
  | some b => exact AList.lookup_insert_ne h

/-- What a slot holds was put there, or was there before. -/
theorem lookup_setSlot_eq_some (h : (setSlot m i v).lookup j = some b) :
    (j = i ∧ v = some b) ∨ (j ≠ i ∧ m.lookup j = some b) := by
  by_cases hj : j = i
  · subst hj
    rw [lookup_setSlot_self] at h
    exact .inl ⟨rfl, h⟩
  · rw [lookup_setSlot_ne hj] at h
    exact .inr ⟨hj, h⟩

end SemStreams
