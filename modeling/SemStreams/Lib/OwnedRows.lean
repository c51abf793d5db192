import Mathlib.Data.List.Basic
/-!
# Bringing the rows of one owner in line

A table is a set of keys, each with one owner. An owner's rows are replaced by
a wanted set without a transaction: its rows are listed, a deletion is planned
for every row that is not wanted and a put for every wanted one that is
missing, and the operations are then made one by one. Each may fail, with or
without its effect, and other owners work on the table meanwhile.

`Converges` is the invariant of such a pass: whatever is still to be done
leads to the wanted rows. `Toward` says that no operation leads away from them,
so a table that is in line stays in line through a pass and any part of one.
-/

namespace SemStreams

/-- An operation on a table. -/
inductive RowOp (κ : Type*)
  | delete (k : κ)
  | put (k : κ)
deriving DecidableEq

variable {κ : Type*} [DecidableEq κ]

def RowOp.apply (rows : List κ) : RowOp κ → List κ
  | .delete k => rows.filter (· ≠ k)
  | .put k => if k ∈ rows then rows else rows ++ [k]

variable {rows : List κ} {k x : κ}

theorem mem_apply_delete : x ∈ (RowOp.delete k).apply rows ↔ x ∈ rows ∧ x ≠ k := by
  simp [RowOp.apply]

theorem mem_apply_put : x ∈ (RowOp.put k).apply rows ↔ x ∈ rows ∨ x = k := by
  show x ∈ (if k ∈ rows then rows else rows ++ [k]) ↔ _
  by_cases h : k ∈ rows
  · rw [if_pos h]
    constructor
    · exact .inl
    · rintro (hx | rfl)
      · exact hx
      · exact h
  · rw [if_neg h, List.mem_append, List.mem_singleton]

/-- **The owner's rows are the wanted ones.** -/
def InLine (owned : κ → Prop) (rows wanted : List κ) : Prop :=
  ∀ k, owned k → (k ∈ rows ↔ k ∈ wanted)

/-- **The operations still to be made lead to the wanted rows.** -/
def Converges (owned : κ → Prop) (rows wanted : List κ) (todo : RowOp κ → Prop) : Prop :=
  ∀ k, owned k → ((k ∈ rows ∧ ¬ todo (.delete k)) ∨ todo (.put k) ↔ k ∈ wanted)

/-- **No operation leads away from the wanted rows.** -/
structure Toward (owned : κ → Prop) (wanted : List κ) (todo : RowOp κ → Prop) : Prop where
  delete : ∀ k, todo (.delete k) → owned k ∧ k ∉ wanted
  put : ∀ k, todo (.put k) → owned k ∧ k ∈ wanted

variable {owned : κ → Prop} {wanted : List κ} {todo : RowOp κ → Prop} {op : RowOp κ}

omit [DecidableEq κ] in
theorem Toward.mono (h : Toward owned wanted todo) (howned : ∀ k, owned k → owned' k)
    (htodo : ∀ o, todo' o → todo o) : Toward owned' wanted todo' where
  delete k hk := ⟨howned k (h.delete k (htodo _ hk)).1, (h.delete k (htodo _ hk)).2⟩
  put k hk := ⟨howned k (h.put k (htodo _ hk)).1, (h.put k (htodo _ hk)).2⟩

omit [DecidableEq κ] in
/-- A plan converges that leads nowhere else and covers what a listing shows:
every row that is not wanted, every wanted one that is missing. -/
theorem converges_of_listing (htoward : Toward owned wanted todo)
    (hstale : ∀ k, k ∈ rows → owned k → k ∉ wanted → todo (.delete k))
    (hmissing : ∀ k, k ∈ wanted → ¬ (k ∈ rows ∧ owned k) → todo (.put k)) :
    Converges owned rows wanted todo := by
  intro k _
  have hdelete := htoward.delete k
  have hput := htoward.put k
  have hstale := hstale k
  have hmissing := hmissing k
  tauto

omit [DecidableEq κ] in
/-- Nothing left to do: the rows are in line. -/
theorem inLine_of_converges (h : Converges owned rows wanted todo) (hnone : ∀ op, ¬ todo op) :
    InLine owned rows wanted := by
  intro k hk
  have hk := h k hk
  tauto

/-- An operation made brings the rows to where the rest leads on. -/
theorem converges_apply (h : Converges owned rows wanted todo) (htoward : Toward owned wanted todo)
    (hop : todo op) (hrest : ∀ o, todo' o → todo o) (hmore : ∀ o, todo o → o ≠ op → todo' o) :
    Converges owned (op.apply rows) wanted todo' := by
  intro k hk
  have hthis := h k hk
  -- the two operations on a key exclude each other
  have hexcl : todo (.delete k) → ¬ todo (.put k) :=
    fun hd hp => (htoward.delete k hd).2 (htoward.put k hp).2
  cases op with
  | delete x =>
    rw [mem_apply_delete]
    by_cases hkx : k = x
    · subst hkx
      have hput : todo' (.put k) ↔ todo (.put k) := ⟨hrest _, fun hp => hmore _ hp nofun⟩
      tauto
    · have hne : RowOp.delete k ≠ RowOp.delete x := fun heq => hkx (RowOp.delete.inj heq)
      have hdelete : todo' (.delete k) ↔ todo (.delete k) := ⟨hrest _, fun hd => hmore _ hd hne⟩
      have hput : todo' (.put k) ↔ todo (.put k) := ⟨hrest _, fun hp => hmore _ hp nofun⟩
      tauto
  | put x =>
    rw [mem_apply_put]
    have hdelete : todo' (.delete k) ↔ todo (.delete k) := ⟨hrest _, fun hd => hmore _ hd nofun⟩
    by_cases hkx : k = x
    · subst hkx
      tauto
    · have hne : RowOp.put k ≠ RowOp.put x := fun heq => hkx (RowOp.put.inj heq)
      have hput : todo' (.put k) ↔ todo (.put k) := ⟨hrest _, fun hp => hmore _ hp hne⟩
      tauto

/-- **Rows in line stay in line**, whether an operation is made or not. -/
theorem inLine_apply (h : InLine owned rows wanted) (htoward : Toward owned wanted todo)
    (hop : todo op) : InLine owned (op.apply rows) wanted := by
  intro k hk
  have hthis := h k hk
  cases op with
  | delete x =>
    rw [mem_apply_delete]
    have hx := (htoward.delete x hop).2
    constructor
    · exact fun hmem => hthis.1 hmem.1
    intro hmem
    refine ⟨hthis.2 hmem, ?_⟩
    rintro rfl
    exact hx hmem
  | put x =>
    rw [mem_apply_put]
    have hx := (htoward.put x hop).2
    constructor
    · rintro (hmem | rfl)
      · exact hthis.1 hmem
      · exact hx
    · exact fun hmem => .inl (hthis.2 hmem)

/-- An operation on another owner's key does not touch the owned ones. -/
theorem mem_apply_of_not_owned (hk : owned k)
    (hop : ∀ x, op = .delete x ∨ op = .put x → ¬ owned x) : k ∈ op.apply rows ↔ k ∈ rows := by
  cases op with
  | delete x =>
    rw [mem_apply_delete]
    tauto
  | put x =>
    have hne : k ≠ x := by
      rintro rfl
      exact hop k (.inr rfl) hk
    rw [mem_apply_put]
    tauto

end SemStreams
