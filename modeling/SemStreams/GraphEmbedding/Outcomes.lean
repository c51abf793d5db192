import SemStreams.Lib.Run
import SemStreams.Lib.Snapshot
/-!
# graph-embedding — the order of outcomes

Three kinds of saves write the record of an entity: each reads it, decides from what it has read,
and writes on the condition that the key has not moved, again from the start where it has. Saves of
any number run side by side, with deletions between them. The source revisions order what they
leave: `outcomes_ordered`.
-/

namespace SemStreams.Embedding

open List KeyedLog

inductive Status
  | pending
  | generated
  | failed
deriving DecidableEq

/-- `embedding.Record`; the body is what the vector or the request for it consists of. -/
structure Record (β : Type*) where
  status : Status
  sourceRevision : ℕ
  body : β
  errorMsg : String := ""
  reason : String := ""

/-- A call of `SavePendingGuarded`, `SaveGenerated` or `SaveFailed`, named by the status it saves. -/
structure Save (β : Type*) where
  status : Status
  entityID : String
  sourceRevision : ℕ
  body : β
  errorMsg : String := ""
  reason : String := ""

variable {β : Type*}

/-- What a save writes in place of what it has read; `none` where it gives up. -/
def Save.decide (save : Save β) (existing : Option (Record β)) : Option (Record β) :=
  match save.status, existing with
  | .pending, none => some { save with status := .pending }
  | .pending, some old =>
    if old.status = .generated ∧ save.sourceRevision ≤ old.sourceRevision then none
    else some { save with status := .pending }
  | .generated, some old =>
    if save.sourceRevision < old.sourceRevision then none else some { save with status := .generated }
  | .failed, some old =>
    if save.sourceRevision < old.sourceRevision then none
    else if old.status = .generated ∧ old.sourceRevision = save.sourceRevision then none
    else some ⟨.failed, save.sourceRevision, old.body, save.errorMsg, save.reason⟩
  -- `ErrRecordGone`
  | _, none => none

inductive Phase (β : Type*)
  | reading
  | writing (seen : Snapshot (Record β)) (record : Record β)
  | returned

structure Call (β : Type*) where
  save : Save β
  attempt : ℕ := 0
  phase : Phase β := .reading

/-- The index and the calls that were made. -/
structure Index (β : Type*) where
  log : KeyedLog String (Record β)
  calls : List (Call β)

inductive Event (β : Type*)
  | call (save : Save β)
  | read (i : ℕ)
  | write (i : ℕ)
  | fail (i : ℕ)
  | delete (entityID : String)

def maxCASRetries : ℕ := 3

namespace Index

/-- One call of a save goes on, or an embedding is deleted. -/
def step (s : Index β) : Event β → Option (Index β)
  | .call save => some { s with calls := s.calls ++ [{ save }] }
  | .read i =>
    match s.calls[i]? with
    | some ⟨save, attempt, .reading⟩ =>
      let seen := snapshot s.log save.entityID
      match save.decide (seen.map Prod.fst) with
      | none => some { s with calls := s.calls.set i ⟨save, attempt, .returned⟩ }
      | some record => some { s with calls := s.calls.set i ⟨save, attempt, .writing seen record⟩ }
    | _ => none
  | .write i =>
    match s.calls[i]? with
    | some ⟨save, attempt, .writing seen record⟩ =>
      if admits s.log save.entityID seen then
        some ⟨(save.entityID, some record) :: s.log, s.calls.set i ⟨save, attempt, .returned⟩⟩
      else if attempt + 1 < maxCASRetries then
        some { s with calls := s.calls.set i ⟨save, attempt + 1, .reading⟩ }
      else some { s with calls := s.calls.set i ⟨save, attempt, .returned⟩ }
    | _ => none
  | .fail i =>
    match s.calls[i]? with
    | some ⟨save, attempt, _⟩ => some { s with calls := s.calls.set i ⟨save, attempt, .returned⟩ }
    | none => none
  | .delete entityID => some { s with log := (entityID, none) :: s.log }

end Index

/-- **What a save may replace.** -/
def Save.MayReplace (save : Save β) (old : Option (Record β)) : Prop :=
  match save.status with
  | .pending => ∀ r, old = some r → r.status = .generated → r.sourceRevision < save.sourceRevision
  | .generated => ∃ r, old = some r ∧ r.sourceRevision ≤ save.sourceRevision
  | .failed => ∃ r, old = some r ∧ r.sourceRevision ≤ save.sourceRevision ∧
      (r.status = .generated → r.sourceRevision ≠ save.sourceRevision)

variable {save : Save β} {record : Record β} {s s' : Index β} {e : Event β} {es : List (Event β)}

theorem mayReplace_of_decide (h : save.decide old = some record) :
    save.MayReplace old ∧ record.sourceRevision = save.sourceRevision := by
  unfold Save.decide at h
  unfold Save.MayReplace
  split at h <;> grind

/-- A call that is about to write has decided from a snapshot of its key. -/
def Call.Decided (log : KeyedLog String (Record β)) (call : Call β) : Prop :=
  ∀ seen record, call.phase = .writing seen record →
    Fresh log call.save.entityID seen ∧ call.save.decide (seen.map Prod.fst) = some record

/-- **What a step can do**: delete, write what a call has decided, or move a call. -/
theorem step_cases (hstep : s.step e = some s') :
    (∃ id, e = .delete id ∧ s' = { s with log := (id, none) :: s.log }) ∨
      (∃ i save attempt seen record, e = .write i ∧
        s.calls[i]? = some ⟨save, attempt, .writing seen record⟩ ∧
        admits s.log save.entityID seen ∧
        s' = ⟨(save.entityID, some record) :: s.log, s.calls.set i ⟨save, attempt, .returned⟩⟩) ∨
      (s'.log = s.log ∧ ∀ call ∈ s'.calls, call ∈ s.calls ∨ call.Decided s.log) := by
  have hset : ∀ {i call}, call.Decided s.log →
      ∀ call' ∈ s.calls.set i call, call' ∈ s.calls ∨ call'.Decided s.log := by
    intro i call hcall call' hmem
    rcases mem_or_eq_of_mem_set hmem with hmem | rfl
    · exact .inl hmem
    · exact .inr hcall
  cases e with (simp only [Index.step] at hstep; try split at hstep <;> try contradiction)
  | call save =>
    cases hstep
    refine .inr (.inr ⟨rfl, fun call hcall => (mem_append.1 hcall).imp_right fun hnew => ?_⟩)
    cases mem_singleton.1 hnew
    exact nofun
  | delete id => cases hstep; exact .inl ⟨id, rfl, rfl⟩
  | read i =>
    split at hstep
    · cases hstep
      exact .inr (.inr ⟨rfl, hset nofun⟩)
    · next record hdecide =>
      cases hstep
      refine .inr (.inr ⟨rfl, hset fun seen record' hphase => ?_⟩)
      cases hphase
      exact ⟨fresh_snapshot _ _, hdecide⟩
  | write i =>
    rename_i save attempt seen record hcall
    split_ifs at hstep with hadmits <;> cases hstep
    · exact .inr (.inl ⟨i, save, attempt, seen, record, rfl, hcall, hadmits, rfl⟩)
    · exact .inr (.inr ⟨rfl, hset nofun⟩)
    · exact .inr (.inr ⟨rfl, hset nofun⟩)
  | fail i =>
    cases hstep
    exact .inr (.inr ⟨rfl, hset nofun⟩)

theorem decided_step (h : ∀ call ∈ s.calls, call.Decided s.log) (hstep : s.step e = some s') :
    ∀ call ∈ s'.calls, call.Decided s'.log := by
  have hlog : ∀ w, ∀ call ∈ s.calls, call.Decided (w :: s.log) := fun w call hcall seen record hphase =>
    (h call hcall seen record hphase).imp_left (Fresh.cons · w)
  rcases step_cases hstep with ⟨id, -, rfl⟩ | ⟨i, _, _, _, _, -, -, -, rfl⟩ | ⟨hsame, hcalls⟩
  · exact hlog _
  · intro call hcall
    rcases mem_or_eq_of_mem_set hcall with hcall | rfl
    · exact hlog _ call hcall
    · exact nofun
  · exact fun call hcall => hsame ▸ (hcalls call hcall).elim (h call) id

/-- **Outcomes are ordered by their source revisions**: in every run of saves and deletions, a step
leaves the index as it is, or deletes an embedding, or is the write of a save, which replaces what
it may replace. -/
theorem outcomes_ordered (log : KeyedLog String (Record β))
    (hrun : run Index.step ⟨log, []⟩ es = some s) (hstep : s.step e = some s') :
    s'.log = s.log ∨ (∃ id, e = .delete id ∧ s'.log = (id, none) :: s.log) ∨
      ∃ i call record, e = .write i ∧ s.calls[i]? = some call ∧
        s'.log = (call.save.entityID, some record) :: s.log ∧
        record.sourceRevision = call.save.sourceRevision ∧
        call.save.MayReplace (current s.log call.save.entityID) := by
  have hinv : ∀ call ∈ s.calls, call.Decided s.log :=
    run_invariant (I := fun s => ∀ call ∈ s.calls, call.Decided s.log)
      (fun _ _ _ => decided_step) (by simp) hrun
  rcases step_cases hstep with
    ⟨id, rfl, rfl⟩ | ⟨i, save, attempt, seen, record, rfl, hcall, hadmits, rfl⟩ | h
  · exact .inr (.inl ⟨id, rfl, rfl⟩)
  · obtain ⟨hfresh, hdecide⟩ := hinv _ (mem_of_getElem? hcall) seen record rfl
    rw [← hfresh.current_of_admits hadmits] at hdecide
    obtain ⟨hmay, hrevision⟩ := mayReplace_of_decide hdecide
    exact .inr (.inr ⟨i, _, record, rfl, hcall, rfl, hrevision, hmay⟩)
  · exact .inl h.1

/-- A vector for the revision that is pending. -/
def vectorSaves : List (Event Unit) :=
  [.call ⟨.pending, "e", 4, (), "", ""⟩, .read 0, .write 0, .call ⟨.generated, "e", 4, (), "", ""⟩,
    .read 1]

theorem outcomes_ordered_vector : ∃ s s' : Index Unit,
    run Index.step ⟨[], []⟩ vectorSaves = some s ∧ s.step (.write 1) = some s' ∧
      Save.MayReplace ⟨.generated, "e", 4, (), "", ""⟩ (current s.log "e") := by
  refine ⟨_, _, rfl, rfl, ?_⟩
  have hstep := @outcomes_ordered Unit _ _ (.write 1) vectorSaves [] rfl rfl
  rcases hstep with h | ⟨_, h, -⟩ | ⟨i, _, _, hi, hcall, -, -, hmay⟩
  · cases h
  · cases h
  · cases hi
    cases hcall
    exact hmay

end SemStreams.Embedding
