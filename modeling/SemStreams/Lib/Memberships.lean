import Mathlib.Data.List.Basic
/-!
# Groups, and the group of a member

Groups are kept by key, together with a table that says of a member which group it is
looked up in. Writing a group first forgets what the table says of its old members and
then enters the new ones; dropping a group forgets its members. Forgetting does not ask
whether the entry is still the group's own, so an entry that another group has made in
the meantime is lost with it.

`owner_rewrites` says when that happens: after a list of writes and drops, each of its
own key, a member that one of them enters is found exactly if no later one is of a group
that used to have it.
-/

namespace SemStreams

open List Function

variable {κ γ μ : Type*} [DecidableEq κ] [DecidableEq μ]

/-- Groups by key, and for a member the key of the group it is found in. -/
@[ext]
structure Memberships (κ γ μ : Type*) where
  group : κ → Option γ
  owner : μ → Option κ

/-- A write of a group, or its end. -/
inductive Rewrite (κ γ : Type*)
  | put (k : κ) (g : γ)
  | drop (k : κ)

namespace Rewrite

def key : Rewrite κ γ → κ
  | put k _ => k
  | drop k => k

def left : Rewrite κ γ → Option γ
  | put _ g => some g
  | drop _ => none

end Rewrite

namespace Memberships

variable (members : γ → List μ)

/-- The members of the group under a key. -/
def at_ (s : Memberships κ γ μ) (k : κ) : List μ := (s.group k).elim [] members

def entered (op : Rewrite κ γ) : List μ := op.left.elim [] members

def apply (s : Memberships κ γ μ) (op : Rewrite κ γ) : Memberships κ γ μ where
  group := update s.group op.key op.left
  owner m :=
    if m ∈ entered members op then some op.key
    else if m ∈ at_ members s op.key then none
    else s.owner m

/-- **No entry without a group that has the member.** -/
def Sound (s : Memberships κ γ μ) : Prop := ∀ m k, s.owner m = some k → m ∈ at_ members s k

variable {members} {s : Memberships κ γ μ} {op : Rewrite κ γ} {ops : List (Rewrite κ γ)} {k : κ}
theorem at_apply_self : at_ members (apply members s op) op.key = entered members op := by
  simp [at_, apply, entered]

theorem group_apply_of_ne (h : k ≠ op.key) : (apply members s op).group k = s.group k :=
  update_of_ne h _ _

theorem at_apply_of_ne (h : k ≠ op.key) : at_ members (apply members s op) k = at_ members s k := by
  rw [at_, group_apply_of_ne h, at_]

theorem Sound.apply (h : Sound members s) : Sound members (apply members s op) := by
  intro m k hk
  simp only [Memberships.apply] at hk
  split at hk
  · next hm =>
    cases hk
    rw [at_apply_self]
    exact hm
  · split at hk
    · cases hk
    next hold =>
    have hmem := h m k hk
    -- the entry is not of the group rewritten, or it would have been forgotten
    have hne : k ≠ op.key := by
      rintro rfl
      exact hold hmem
    rwa [at_apply_of_ne hne]

theorem Sound.foldl (h : Sound members s) (ops : List (Rewrite κ γ)) :
    Sound members (ops.foldl (Memberships.apply members) s) := by
  induction ops generalizing s with
  | nil => exact h
  | cons op ops ih => exact ih h.apply

theorem group_foldl_of_notMem (h : k ∉ ops.map Rewrite.key) :
    (ops.foldl (apply members) s).group k = s.group k := by
  induction ops generalizing s with
  | nil => rfl
  | cons op ops ih =>
    rw [map_cons, mem_cons, not_or] at h
    rw [foldl_cons, ih h.2, group_apply_of_ne h.1]

theorem group_foldl_of_mem (hnodup : (ops.map Rewrite.key).Nodup) (h : op ∈ ops) :
    (ops.foldl (apply members) s).group op.key = op.left := by
  induction ops generalizing s with
  | nil => exact absurd h not_mem_nil
  | cons op' ops ih =>
    rw [map_cons, nodup_cons] at hnodup
    rw [foldl_cons]
    rcases mem_cons.1 h with rfl | h
    · rw [group_foldl_of_notMem hnodup.1]
      exact update_self _ _ _
    · exact ih hnodup.2 h

/-- Where nobody enters a member, its entry stays unless a group that has it is
rewritten. -/
theorem owner_foldl_of_notEntered (hnodup : (ops.map Rewrite.key).Nodup)
    (hentered : ∀ op ∈ ops, m ∉ entered members op) :
    (ops.foldl (apply members) s).owner m = some k ↔
      s.owner m = some k ∧ ∀ op ∈ ops, m ∉ at_ members s op.key := by
  induction ops generalizing s with
  | nil => simp
  | cons op ops ih =>
    rw [map_cons, nodup_cons] at hnodup
    rw [foldl_cons, ih hnodup.2 fun op' hop' => hentered op' (by simp [hop'])]
    have hsame : (∀ op' ∈ ops, m ∉ at_ members (apply members s op) op'.key) ↔
        ∀ op' ∈ ops, m ∉ at_ members s op'.key := by
      refine forall₂_congr fun op' hop' => ?_
      rw [at_apply_of_ne]
      intro heq
      exact hnodup.1 (heq ▸ List.mem_map_of_mem hop')
    have howner : (apply members s op).owner m = some k ↔
        s.owner m = some k ∧ m ∉ at_ members s op.key := by
      simp only [apply, if_neg (hentered op (by simp))]
      split <;> next hm => simp [hm]
    rw [hsame, howner, forall_mem_cons, and_assoc]

/-- **When a member that is entered is found**: no later rewrite is of a group that had
it before. -/
theorem owner_rewrites {pre post : List (Rewrite κ γ)}
    (hnodup : ((pre ++ op :: post).map Rewrite.key).Nodup) (hm : m ∈ entered members op)
    (hpost : ∀ op' ∈ post, m ∉ entered members op') :
    ((pre ++ op :: post).foldl (apply members) s).owner m = some op.key ↔
      ∀ op' ∈ post, m ∉ at_ members s op'.key := by
  rw [map_append, map_cons, nodup_append] at hnodup
  obtain ⟨-, hcons, hdisjoint⟩ := hnodup
  rw [nodup_cons] at hcons
  rw [foldl_append, foldl_cons, owner_foldl_of_notEntered hcons.2 hpost]
  have howner : (apply members (pre.foldl (apply members) s) op).owner m = some op.key := by
    simp only [apply, if_pos hm]
  rw [howner, eq_self, true_and]
  refine forall₂_congr fun op' hop' => ?_
  have hkey := List.mem_map_of_mem (f := Rewrite.key) hop'
  have hne : op'.key ≠ op.key := fun heq => hcons.1 (heq ▸ hkey)
  have hnot : op'.key ∉ pre.map Rewrite.key := fun hmem =>
    hdisjoint _ hmem _ (mem_cons_of_mem _ hkey) rfl
  rw [at_apply_of_ne hne, at_, group_foldl_of_notMem hnot, at_]

end Memberships

end SemStreams
