import Mathlib.Data.List.Dedup
import Mathlib.Data.List.Sort
import SemStreams.Lib.Bucket
import SemStreams.Lib.OwnedRows
import SemStreams.GraphIndex.Keys
/-!
# graph-index — reconciling the rows of one entity

The index keeps three families of keyed rows and one OUTGOING entry for an
entity, all derived from its state. A lane works on one entity at a time: it
reads the authoritative state, and then either applies the plan built from it,
up to three times, or deletes what the entity owns. Every call to the store is
a step of its own and may fail, with or without its effect; an entity whose
rows may be incomplete afterwards is marked as failed.

`Settled` says that the entity's rows are those of a plan. `exec_leads` and
`settled_of_leads` say that a pass without a failure ends there,
`exec_settled` that no part of a pass for the current state leaves it, and
`exec_agree` that it touches no other entity's rows.
-/

namespace SemStreams.GraphIndex

open SemStreams.Graph List Function Option

/-! ## The plan -/

/-- `graph.OutgoingEntry`. -/
structure OutgoingEntry where
  toEntityID : String
  predicate : String
deriving DecidableEq, Repr

/-- What a plan depends on besides the state: the name and alias predicates
that were registered, and SHA-256 of the folded name. -/
structure Vocabulary where
  namePredicates : String → Option ℤ
  aliasPredicates : String → Bool
  nameDigest : String → Digest

/-- `nameIndexWrite`. -/
structure NameWrite where
  name : String
  predicate : String
  priority : ℤ
deriving DecidableEq

structure EntityIndexPlan where
  entityID : String
  outgoingTargets : List OutgoingEntry
  predicatesUsed : List String
  /-- A target and the predicate of an edge to it. -/
  incomingByTarget : List (String × String)
  aliasWrites : List String
  nameWrites : List NameWrite
deriving DecidableEq

/-- The object as a text that is not empty. -/
def textObject (t : Triple) : Option String :=
  match t.object with
  | .text value => if value = "" then none else some value
  | .json _ => none

def aliasOf (v : Vocabulary) (t : Triple) : Option String :=
  if v.aliasPredicates t.predicate ∨ t.predicate = "core.identity.alias" then textObject t else none

/-- The alias is no key: the triple is skipped, for the names as well. -/
def skippedAlias (v : Vocabulary) (t : Triple) : Bool :=
  (aliasOf v t).any fun text => validateKVLiteralKey text ≠ .ok ()

def nameOf (v : Vocabulary) (t : Triple) : Option NameWrite :=
  (v.namePredicates t.predicate).bind fun priority =>
    (textObject t).map fun name => ⟨name, t.predicate, priority⟩

/-- The loop of `buildEntityIndexPlan` over the triples. -/
def collectPlan (v : Vocabulary) (state : EntityState) (entityID : String) : EntityIndexPlan where
  entityID := entityID
  outgoingTargets := state.triples.filterMap fun t =>
    t.relationshipTarget.map fun target => ⟨target, t.predicate⟩
  predicatesUsed := state.triples.map Triple.predicate
  incomingByTarget := state.triples.filterMap fun t =>
    t.relationshipTarget.map fun target => (target, t.predicate)
  aliasWrites := (state.triples.filter fun t => !skippedAlias v t).filterMap (aliasOf v)
  nameWrites := (state.triples.filter fun t => !skippedAlias v t).filterMap (nameOf v)

def validateEntityLiteralKey (entityID : String) : Bool :=
  isValidEntityID entityID && validateKVLiteralKey entityID = .ok ()

/-! ## The rows -/

/-- The families of keyed rows an entity owns. -/
inductive Family
  | incoming
  | predicate
  | name
deriving DecidableEq

def families : List Family := [.incoming, .predicate, .name]

def Family.ownerFilter : Family → String → String
  | .incoming => incomingIndexSourceFilter
  | .predicate => predicateIndexEntityFilter
  | .name => nameIndexEntityFilter

/-- A row of NAME_INDEX has a value, so it is written again. -/
def Family.overwriteExisting : Family → Bool
  | .name => true
  | _ => false

def EntityIndexPlan.desired (v : Vocabulary) (plan : EntityIndexPlan) : Family → List String
  | .incoming => plan.incomingByTarget.map fun e => incomingIndexKey e.1 plan.entityID e.2
  | .predicate => plan.predicatesUsed.map fun p => predicateIndexKey p plan.entityID
  | .name => plan.nameWrites.map fun w =>
    nameCompositeKey (nameIndexKey (v.nameDigest w.name)) plan.entityID w.predicate

/-- The keys of a family's rows are built from what its contract allows: the
checks of `reconcileIncomingIndex`, `reconcilePredicateIndex` and
`reconcileNameIndex`. -/
def EntityIndexPlan.inputsOk (plan : EntityIndexPlan) : Family → Bool
  | .incoming => isValidEntityID plan.entityID && plan.incomingByTarget.all fun e =>
    isValidEntityID e.1 && isValidPredicate e.2
  | .predicate => isValidEntityID plan.entityID && plan.predicatesUsed.all isValidPredicate
  | .name => isValidEntityID plan.entityID && plan.nameWrites.all fun w =>
    w.name ≠ "" && isValidPredicate w.predicate

/-- The checks at the end of `buildEntityIndexPlan`. -/
def EntityIndexPlan.valid (v : Vocabulary) (plan : EntityIndexPlan) : Bool :=
  families.all fun f => validateKVWildcardFilter (f.ownerFilter plan.entityID) = .ok () &&
    plan.inputsOk f && (plan.desired v f).all fun key => validateKVLiteralKey key = .ok ()

def buildEntityIndexPlan (v : Vocabulary) (state : EntityState) (entityID : String) :
    Option EntityIndexPlan :=
  let plan := collectPlan v state entityID
  if plan.valid v then some plan else none

/-- The index: the keys of each family, and the OUTGOING entries. -/
structure IndexRows where
  keys : Family → List String
  outgoing : String → Option (List OutgoingEntry)

def IndexRows.applyOp (rows : IndexRows) (f : Family) (op : RowOp String) : IndexRows :=
  { rows with keys := update rows.keys f (op.apply (rows.keys f)) }

def IndexRows.setOutgoing (rows : IndexRows) (id : String) (entry : Option (List OutgoingEntry)) :
    IndexRows :=
  { rows with outgoing := update rows.outgoing id entry }

/-- `KeysByFilter` with the owner's filter. -/
def IndexRows.owned (rows : IndexRows) (f : Family) (id : String) : List String :=
  (rows.keys f).filter (subjectSelects (f.ownerFilter id))

def uniqueSortedStrings (values : List String) : List String := values.dedup.insertionSort (· ≤ ·)

theorem mem_uniqueSortedStrings :
    x ∈ uniqueSortedStrings values ↔ x ∈ values := by
  unfold uniqueSortedStrings
  rw [mem_insertionSort, mem_dedup]

theorem nodup_uniqueSortedStrings (values : List String) : (uniqueSortedStrings values).Nodup :=
  (perm_insertionSort _ _).nodup_iff.2 (nodup_dedup values)

/-! ## A pass -/

/-- What a lane still has to do in a pass. -/
inductive Instr
  /-- List the owned rows of a family and go on with what they call for. -/
  | list (f : Family)
  | row (f : Family) (op : RowOp String)
  /-- Put the OUTGOING entry, or delete it. -/
  | outgoing
  | aliasRow (text : String)
deriving DecidableEq

/-- The rows an entity is to have; none without a plan. -/
def wanted (v : Vocabulary) (goal : Option EntityIndexPlan) (f : Family) : List String :=
  match goal with
  | none => []
  | some plan => plan.desired v f

/-- The deletions and puts of `reconcileOwnedRows`, in their order. -/
def reconcileOps (f : Family) (existing desired : List String) : List Instr :=
  (uniqueSortedStrings (existing.filter (· ∉ desired))).map (fun key => .row f (.delete key)) ++
    (uniqueSortedStrings (desired.filter fun key => f.overwriteExisting || key ∉ existing)).map
      fun key => .row f (.put key)

/-- The checks before and after the listing of `reconcileOwnedRows`. -/
def reconcilable (v : Vocabulary) (plan : EntityIndexPlan) (f : Family) (existing : List String) : Bool :=
  plan.inputsOk f && validateKVWildcardFilter (f.ownerFilter plan.entityID) = .ok () &&
    (plan.desired v f).all (fun key => validateKVLiteralKey key = .ok ()) &&
    existing.all fun key => validateKVLiteralKey key = .ok ()

/-- The checks of `updateOutgoingIndexBatch`. -/
def outgoingOk (plan : EntityIndexPlan) : Bool :=
  validateEntityLiteralKey plan.entityID && plan.outgoingTargets.all fun t =>
    validateEntityLiteralKey t.toEntityID && isValidPredicate t.predicate

def applyEntityIndexPlan (plan : EntityIndexPlan) : List Instr :=
  [.list .incoming, .outgoing, .list .predicate] ++ plan.aliasWrites.map .aliasRow ++ [.list .name]

/-- A call to the store: its effect is there unless it failed without one. -/
def landed (answer : StoreAnswer) : Bool := answer ≠ .failed false

/-- **One instruction of a pass for `id`**: the rows, what the instruction calls
for, and whether it failed. -/
def exec (v : Vocabulary) (id : String) (goal : Option EntityIndexPlan) (rows : IndexRows)
    (answer : StoreAnswer) : Instr → IndexRows × List Instr × Bool
  | .list f =>
    let existing := rows.owned f id
    if answer = .ok ∧ goal.all (reconcilable v · f existing) then
      (rows, reconcileOps f existing (wanted v goal f), false)
    else (rows, [], true)
  | .row f op => (if landed answer then rows.applyOp f op else rows, [], answer ≠ .ok)
  | .outgoing =>
    if goal.all outgoingOk then
      (if landed answer then rows.setOutgoing id (goal.map EntityIndexPlan.outgoingTargets) else rows,
        [], answer ≠ .ok)
    else (rows, [], true)
  | .aliasRow _ => (rows, [], answer ≠ .ok)

/-! ## Whose a row is -/

/-- **A row of a family, with its owner.** -/
inductive RowOf : Family → String → String → Prop
  | incoming (e : Edge) : RowOf .incoming e.source e.key
  | predicate (r : Membership) : RowOf .predicate r.entity r.key
  | name (r : NameRow) : RowOf .name r.entity r.key

/-- The owner's filter selects the key. -/
def Owned (f : Family) (id key : String) : Prop := subjectSelects (f.ownerFilter id) key = true

/-- Every key of the index is a row. -/
def AllRows (rows : IndexRows) : Prop := ∀ f, ∀ key ∈ rows.keys f, ∃ owner, RowOf f owner key

section Rows

variable {v : Vocabulary} {f : Family} {id key : String} {state : EntityState}

/-- **A filter selects the rows of its owner.** -/
theorem RowOf.owned_iff (h : RowOf f owner key) (hid : isValidEntityID id) :
    Owned f id key ↔ id = owner := by
  cases h with
  | incoming e =>
    show subjectSelects (incomingIndexSourceFilter id) e.key ↔ _
    rw [sourceFilter_selects e hid, decide_eq_true_eq]
  | predicate r =>
    show subjectSelects (predicateIndexEntityFilter id) r.key ↔ _
    rw [entityFilter_selects r hid, decide_eq_true_eq]
  | name r =>
    show subjectSelects (nameIndexEntityFilter id) r.key ↔ _
    rw [nameFilter_selects r hid, decide_eq_true_eq]

theorem RowOf.owned (h : RowOf f id key) (hid : isValidEntityID id) : Owned f id key :=
  (h.owned_iff hid).2 rfl

theorem RowOf.validateKVLiteralKey_ok (h : RowOf f owner key) : validateKVLiteralKey key = .ok () := by
  cases h with
  | incoming e => exact e.validateKVLiteralKey_ok
  | predicate r => exact r.validateKVLiteralKey_ok
  | name r => exact r.validateKVLiteralKey_ok

theorem ownerFilter_ok (f : Family) (hid : isValidEntityID id) :
    validateKVWildcardFilter (f.ownerFilter id) = .ok () := by
  cases f with
  | incoming => exact incomingIndexSourceFilter_ok hid
  | predicate => exact predicateIndexEntityFilter_ok hid
  | name => exact nameIndexEntityFilter_ok hid

theorem validateEntityLiteralKey_eq : validateEntityLiteralKey id = isValidEntityID id := by
  unfold validateEntityLiteralKey
  cases hid : isValidEntityID id with
  | false => rfl
  | true =>
    have hkey := (keyTokens_entityID hid).validateKVLiteralKey_ok (by decide) (by decide)
    rw [Bool.true_and, decide_eq_true_eq]
    exact hkey

theorem mem_incomingByTarget : e ∈ (collectPlan v state id).incomingByTarget ↔
      ∃ t ∈ state.triples, t.relationshipTarget = some e.1 ∧ t.predicate = e.2 := by
  simp only [collectPlan, mem_filterMap, map_eq_some_iff]
  constructor
  · rintro ⟨t, ht, _, htarget, rfl⟩
    exact ⟨t, ht, htarget, rfl⟩
  · rintro ⟨t, ht, htarget, hpred⟩
    exact ⟨t, ht, e.1, htarget, by rw [hpred]⟩

/-- The name of a plan is not empty, and its predicate a predicate of the state. -/
theorem name_of_mem_nameWrites (h : w ∈ (collectPlan v state id).nameWrites) :
    w.name ≠ "" ∧ ∃ t ∈ state.triples, t.predicate = w.predicate := by
  simp only [collectPlan, mem_filterMap, nameOf, bind_eq_some_iff, map_eq_some_iff] at h
  obtain ⟨t, ht, _, -, name, hname, rfl⟩ := h
  refine ⟨?_, t, mem_of_mem_filter ht, rfl⟩
  unfold textObject at hname
  split at hname
  · split at hname
    · cases hname
    · rename_i hne
      cases hname
      exact hne
  · cases hname

section Plan

variable (hstate : validateEntityStateContract state = true)
include hstate

/-- The keys of a plan are rows of its entity. -/
theorem rowOf_desired (hid : isValidEntityID id)
    (h : key ∈ (collectPlan v state id).desired v f) : RowOf f id key := by
  cases f with
  | incoming =>
    obtain ⟨e, he, rfl⟩ := List.mem_map.1 h
    obtain ⟨t, ht, htarget, hpred⟩ := mem_incomingByTarget.1 he
    exact .incoming ⟨e.1, id, e.2, isValidEntityID_of_relationshipTarget htarget, hid,
      hpred ▸ contract_predicate hstate ht⟩
  | predicate =>
    obtain ⟨p, hp, rfl⟩ := List.mem_map.1 h
    obtain ⟨t, ht, rfl⟩ := List.mem_map.1 hp
    exact .predicate ⟨t.predicate, id, contract_predicate hstate ht, hid⟩
  | name =>
    obtain ⟨w, hw, rfl⟩ := List.mem_map.1 h
    obtain ⟨-, t, ht, hpred⟩ := name_of_mem_nameWrites hw
    exact .name ⟨v.nameDigest w.name, id, w.predicate, hid, hpred ▸ contract_predicate hstate ht⟩

theorem inputsOk_collectPlan (hid : isValidEntityID id) (f : Family) :
    (collectPlan v state id).inputsOk f := by
  cases f with
  | incoming =>
    refine Bool.and_eq_true_iff.2 ⟨hid, List.all_eq_true.2 fun e he => ?_⟩
    obtain ⟨t, ht, htarget, hpred⟩ := mem_incomingByTarget.1 he
    rw [isValidEntityID_of_relationshipTarget htarget, ← hpred, contract_predicate hstate ht]
    rfl
  | predicate =>
    refine Bool.and_eq_true_iff.2 ⟨hid, List.all_eq_true.2 fun p hp => ?_⟩
    obtain ⟨t, ht, rfl⟩ := List.mem_map.1 hp
    exact contract_predicate hstate ht
  | name =>
    refine Bool.and_eq_true_iff.2 ⟨hid, List.all_eq_true.2 fun w hw => ?_⟩
    obtain ⟨hname, t, ht, hpred⟩ := name_of_mem_nameWrites hw
    rw [decide_eq_true hname, ← hpred, contract_predicate hstate ht]
    rfl

theorem desired_ok (hid : isValidEntityID id) (f : Family) :
    ((collectPlan v state id).desired v f).all (fun key => validateKVLiteralKey key = .ok ()) :=
  List.all_eq_true.2 fun _ hkey =>
    decide_eq_true (rowOf_desired hstate hid hkey).validateKVLiteralKey_ok

/-- **A state within the contract has a plan.** -/
theorem buildEntityIndexPlan_eq (hid : isValidEntityID id) :
    buildEntityIndexPlan v state id = some (collectPlan v state id) := by
  refine if_pos (List.all_eq_true.2 fun f _ => ?_)
  rw [inputsOk_collectPlan hstate hid f, desired_ok hstate hid f, Bool.and_true, Bool.and_true,
    decide_eq_true_eq]
  exact ownerFilter_ok f hid

end Plan

end Rows

/-! ## What a pass does to the rows -/

/-- The goal is the plan of a state within the contract, or that there be no
rows. -/
def GoalOk (v : Vocabulary) (id : String) (goal : Option EntityIndexPlan) : Prop :=
  ∀ plan, goal = some plan →
    ∃ state, validateEntityStateContract state = true ∧ plan = collectPlan v state id

/-- **The entity's rows are those of the goal.** -/
structure Settled (v : Vocabulary) (id : String) (goal : Option EntityIndexPlan) (rows : IndexRows) :
    Prop where
  keys : ∀ f, InLine (Owned f id) (rows.keys f) (wanted v goal f)
  outgoing : rows.outgoing id = goal.map EntityIndexPlan.outgoingTargets

/-- **What is still to do leads there.** -/
structure Leads (v : Vocabulary) (id : String) (goal : Option EntityIndexPlan) (rows : IndexRows)
    (todo : List Instr) : Prop where
  keys : ∀ f, Instr.list f ∈ todo ∨
    Converges (Owned f id) (rows.keys f) (wanted v goal f) fun op => Instr.row f op ∈ todo
  outgoing : Instr.outgoing ∈ todo ∨ rows.outgoing id = goal.map EntityIndexPlan.outgoingTargets

/-- No instruction leads away from the goal, nor is about another's row. -/
def Towards (v : Vocabulary) (id : String) (goal : Option EntityIndexPlan) (todo : List Instr) : Prop :=
  ∀ f, Toward (RowOf f id) (wanted v goal f) fun op => Instr.row f op ∈ todo

/-- The two indexes hold the same rows of the entity. -/
structure Agree (id : String) (rows rows' : IndexRows) : Prop where
  keys : ∀ f key, Owned f id key → (key ∈ rows'.keys f ↔ key ∈ rows.keys f)
  outgoing : rows'.outgoing id = rows.outgoing id

variable {v : Vocabulary} {id : String} {goal : Option EntityIndexPlan} {rows : IndexRows}
  {todo : List Instr}

theorem Agree.refl (id : String) (rows : IndexRows) : Agree id rows rows :=
  ⟨fun _ _ _ => Iff.rfl, rfl⟩

theorem Settled.of_agree (h : Settled v id goal rows) (hagree : Agree id rows rows') :
    Settled v id goal rows' :=
  ⟨fun f key hkey => (hagree.keys f key hkey).trans (h.keys f key hkey),
    hagree.outgoing.trans h.outgoing⟩

theorem Leads.of_agree (h : Leads v id goal rows todo) (hagree : Agree id rows rows') :
    Leads v id goal rows' todo := by
  refine ⟨fun f => ?_, h.outgoing.imp_right hagree.outgoing.trans⟩
  rcases h.keys f with hlist | hconv
  · exact .inl hlist
  · refine .inr fun key hkey => ?_
    rw [hagree.keys f key hkey]
    exact hconv key hkey

variable {instr : Instr} {answer : StoreAnswer} {key : String} {f : Family}

theorem rowOf_wanted (hgoal : GoalOk v id goal) (hid : isValidEntityID id)
    (h : key ∈ wanted v goal f) : RowOf f id key := by
  cases goal with
  | none => exact absurd h not_mem_nil
  | some plan =>
    obtain ⟨_, hstate, rfl⟩ := hgoal plan rfl
    exact rowOf_desired hstate hid h

/-- What a listing shows are rows of the entity. -/
theorem rowOf_owned (hall : AllRows rows) (hid : isValidEntityID id)
    (h : key ∈ rows.owned f id) : RowOf f id key := by
  obtain ⟨hmem, hsel⟩ := mem_filter.1 h
  obtain ⟨_, hrow⟩ := hall f key hmem
  rw [(hrow.owned_iff hid).1 hsel]
  exact hrow

variable {existing desired : List String} {g : Family}

theorem mem_reconcileOps_delete : Instr.row g (.delete key) ∈ reconcileOps f existing desired ↔
      g = f ∧ key ∈ existing ∧ key ∉ desired := by
  simp only [reconcileOps, mem_append, List.mem_map, mem_uniqueSortedStrings, mem_filter]
  aesop

theorem mem_reconcileOps_put : Instr.row g (.put key) ∈ reconcileOps f existing desired ↔
      g = f ∧ key ∈ desired ∧ (f.overwriteExisting ∨ key ∉ existing) := by
  simp only [reconcileOps, mem_append, List.mem_map, mem_uniqueSortedStrings, mem_filter]
  aesop

theorem Towards.tail (h : Towards v id goal (instr :: todo)) : Towards v id goal todo :=
  fun f => (h f).mono (fun _ hk => hk) fun _ ho => mem_cons_of_mem _ ho

/-- **What an instruction calls for leads nowhere else.** -/
theorem exec_towards (hgoal : GoalOk v id goal) (hid : isValidEntityID id) (hall : AllRows rows)
    (h : Towards v id goal (instr :: todo)) :
    Towards v id goal ((exec v id goal rows answer instr).2.1 ++ todo) := by
  have hrest := h.tail
  cases instr with
  | list f =>
    unfold exec
    dsimp only
    split
    · intro g
      constructor
      · intro key hkey
        rcases mem_append.1 hkey with hkey | hkey
        · obtain ⟨rfl, hexisting, hnot⟩ := mem_reconcileOps_delete.1 hkey
          exact ⟨rowOf_owned hall hid hexisting, hnot⟩
        · exact (hrest g).delete key hkey
      · intro key hkey
        rcases mem_append.1 hkey with hkey | hkey
        · obtain ⟨rfl, hdesired, -⟩ := mem_reconcileOps_put.1 hkey
          exact ⟨rowOf_wanted hgoal hid hdesired, hdesired⟩
        · exact (hrest g).put key hkey
    · exact hrest
  | row f op => exact hrest
  | outgoing =>
    unfold exec
    dsimp only
    split <;> exact hrest
  | aliasRow text => exact hrest

theorem keys_applyOp (rows : IndexRows) (f g : Family) (op : RowOp String) :
    (rows.applyOp f op).keys g = if g = f then op.apply (rows.keys f) else rows.keys g := by
  exact update_apply _ _ _ _

/-- The rows after a step are the rows before it, or an effect of the step. -/
theorem exec_rows (v : Vocabulary) (id : String) (goal : Option EntityIndexPlan) (rows : IndexRows)
    (answer : StoreAnswer) (instr : Instr) :
    (exec v id goal rows answer instr).1 = rows ∨
      (∃ f op, instr = .row f op ∧ (exec v id goal rows answer instr).1 = rows.applyOp f op) ∨
      instr = .outgoing ∧ (exec v id goal rows answer instr).1 =
        rows.setOutgoing id (goal.map EntityIndexPlan.outgoingTargets) := by
  cases instr with
  | list f =>
    unfold exec
    dsimp only
    split <;> exact .inl rfl
  | row f op =>
    unfold exec
    dsimp only
    split
    · exact .inr (.inl ⟨f, op, rfl, rfl⟩)
    · exact .inl rfl
  | outgoing =>
    unfold exec
    dsimp only
    split
    · split
      · exact .inr (.inr ⟨rfl, rfl⟩)
      · exact .inl rfl
    · exact .inl rfl
  | aliasRow text => exact .inl rfl

theorem exec_allRows (hall : AllRows rows) (h : Towards v id goal (instr :: todo)) :
    AllRows (exec v id goal rows answer instr).1 := by
  rcases exec_rows v id goal rows answer instr with heq | ⟨f, op, hinstr, heq⟩ | ⟨-, heq⟩
  · rw [heq]
    exact hall
  · rw [heq]
    intro g key hkey
    rw [keys_applyOp] at hkey
    split at hkey
    · rename_i hg
      subst hg
      cases op with
      | delete x => exact hall g key (mem_apply_delete.1 hkey).1
      | put x =>
        rcases mem_apply_put.1 hkey with hkey | rfl
        · exact hall g key hkey
        · exact ⟨id, ((h g).put key (by rw [hinstr]; exact mem_cons_self)).1⟩
    · exact hall g key hkey
  · rw [heq]
    exact hall

/-- **Rows that are settled stay so** through a pass for the same goal. -/
theorem exec_settled (hid : isValidEntityID id) (h : Settled v id goal rows)
    (htowards : Towards v id goal (instr :: todo)) :
    Settled v id goal (exec v id goal rows answer instr).1 := by
  rcases exec_rows v id goal rows answer instr with heq | ⟨f, _, hinstr, heq⟩ | ⟨-, heq⟩
  · rw [heq]
    exact h
  · rw [heq]
    refine ⟨fun g => ?_, h.outgoing⟩
    rw [keys_applyOp]
    split
    · rename_i hg
      subst hg
      exact inLine_apply (h.keys g) ((htowards g).mono (fun _ hrow => hrow.owned hid) fun _ ho => ho)
        (by rw [hinstr]; exact mem_cons_self)
    · exact h.keys g
  · rw [heq]
    exact ⟨h.keys, update_self _ _ _⟩

/-- **No other entity's rows are touched.** -/
theorem exec_agree (hid' : isValidEntityID id') (hne : id' ≠ id)
    (htowards : Towards v id goal (instr :: todo)) :
    Agree id' rows (exec v id goal rows answer instr).1 := by
  rcases exec_rows v id goal rows answer instr with heq | ⟨f, op, hinstr, heq⟩ | ⟨-, heq⟩
  · rw [heq]
    exact .refl id' rows
  · rw [heq]
    refine ⟨fun g key hkey => ?_, rfl⟩
    rw [keys_applyOp]
    split
    · rename_i hg
      subst hg
      have hop : Instr.row g op ∈ instr :: todo := by
        rw [hinstr]
        exact mem_cons_self
      refine mem_apply_of_not_owned hkey ?_
      rintro x (rfl | rfl) hx
      · exact hne ((((htowards g).delete x hop).1.owned_iff hid').1 hx)
      · exact hne ((((htowards g).put x hop).1.owned_iff hid').1 hx)
    · exact Iff.rfl
  · rw [heq]
    exact ⟨fun _ _ _ => Iff.rfl, update_of_ne hne _ _⟩

/-- Without a failure the instruction had its effect. -/
theorem exec_ok (h : (exec v id goal rows answer instr).2.2 = false) :
    (∃ f, instr = .list f ∧ exec v id goal rows answer instr =
        (rows, reconcileOps f (rows.owned f id) (wanted v goal f), false)) ∨
      (∃ f op, instr = .row f op ∧ exec v id goal rows answer instr = (rows.applyOp f op, [], false)) ∨
      (instr = .outgoing ∧ exec v id goal rows answer instr =
        (rows.setOutgoing id (goal.map EntityIndexPlan.outgoingTargets), [], false)) ∨
      ∃ text, instr = .aliasRow text ∧ exec v id goal rows answer instr = (rows, [], false) := by
  cases instr with
  | list f =>
    refine .inl ⟨f, rfl, ?_⟩
    unfold exec at h ⊢
    dsimp only at h ⊢
    split at h
    · rename_i hok
      rw [if_pos hok]
    · cases h
  | row f op =>
    refine .inr (.inl ⟨f, op, rfl, ?_⟩)
    have hok : answer = .ok := by simpa [exec] using h
    rw [hok]
    rfl
  | outgoing =>
    refine .inr (.inr (.inl ⟨rfl, ?_⟩))
    unfold exec at h ⊢
    dsimp only at h ⊢
    split at h
    · rename_i hgoal
      have hok : answer = .ok := by simpa using h
      rw [if_pos hgoal, hok]
      rfl
    · cases h
  | aliasRow text =>
    refine .inr (.inr (.inr ⟨text, rfl, ?_⟩))
    have hok : answer = .ok := by simpa [exec] using h
    rw [hok]
    rfl

/-- **A pass without a failure goes on leading to its goal.** -/
theorem exec_leads (hgoal : GoalOk v id goal) (hid : isValidEntityID id) (hall : AllRows rows)
    (htowards : Towards v id goal (instr :: todo)) (h : Leads v id goal rows (instr :: todo))
    (hok : (exec v id goal rows answer instr).2.2 = false) :
    Leads v id goal (exec v id goal rows answer instr).1
      ((exec v id goal rows answer instr).2.1 ++ todo) := by
  have htowards' := @exec_towards v id goal rows todo instr answer hgoal hid hall htowards
  have hlater : ∀ i, i ≠ instr → i ∈ instr :: todo → i ∈ (exec v id goal rows answer instr).2.1 ++ todo :=
    fun i hne hi => mem_append_right _ (mem_of_ne_of_mem hne hi)
  rcases exec_ok hok with ⟨f, rfl, heq⟩ | ⟨f, _, rfl, heq⟩ | ⟨rfl, heq⟩ | ⟨_, rfl, heq⟩
  all_goals
    rw [heq] at htowards' hlater ⊢
  · refine ⟨fun g => ?_, ?_⟩
    · by_cases hg : g = f
      · subst hg
        -- the operations called for cover what the listing showed
        refine .inr (converges_of_listing
          ((htowards' g).mono (fun _ hrow => hrow.owned hid) fun _ ho => ho) ?_ ?_)
        · intro key hkey howned hnot
          exact mem_append_left _ (mem_reconcileOps_delete.2
            ⟨rfl, mem_filter.2 ⟨hkey, howned⟩, hnot⟩)
        · intro key hkey hmissing
          exact mem_append_left _ (mem_reconcileOps_put.2
            ⟨rfl, hkey, .inr fun hmem => hmissing (mem_filter.1 hmem)⟩)
      · rcases h.keys g with hlist | hconv
        · have hne : Instr.list g ≠ Instr.list f := fun heq => hg (Instr.list.inj heq)
          exact .inl (hlater _ hne hlist)
        · refine .inr fun key hkey => ?_
          have hkey := hconv key hkey
          simpa [mem_reconcileOps_delete, mem_reconcileOps_put, hg] using hkey
    · exact h.outgoing.imp_left (hlater .outgoing nofun)
  · refine ⟨fun g => ?_, ?_⟩
    · rcases h.keys g with hlist | hconv
      · exact .inl (hlater (.list g) nofun hlist)
      refine .inr ?_
      rw [keys_applyOp]
      split
      · rename_i hg
        subst hg
        refine converges_apply hconv
          ((htowards g).mono (fun _ hrow => hrow.owned hid) fun _ ho => ho) mem_cons_self
          (fun o ho => mem_cons_of_mem _ ho) ?_
        intro o ho hne
        exact mem_of_ne_of_mem (fun heq => hne (Instr.row.inj heq).2) ho
      · rename_i hg
        intro key hkey
        have hkey := hconv key hkey
        simpa [hg] using hkey
    · exact h.outgoing.imp_left (hlater .outgoing nofun)
  · refine ⟨fun g => ?_, .inr (update_self _ _ _)⟩
    rcases h.keys g with hlist | hconv
    · exact .inl (hlater (.list g) nofun hlist)
    · refine .inr fun key hkey => ?_
      have hkey := hconv key hkey
      simpa [IndexRows.setOutgoing] using hkey
  · refine ⟨fun g => ?_, ?_⟩
    · rcases h.keys g with hlist | hconv
      · exact .inl (hlater (.list g) nofun hlist)
      · refine .inr fun key hkey => ?_
        have hkey := hconv key hkey
        simpa using hkey
    · exact h.outgoing.imp_left (hlater .outgoing nofun)

/-- **A pass that is over has reached its goal.** -/
theorem settled_of_leads (h : Leads v id goal rows []) : Settled v id goal rows := by
  refine ⟨fun f => ?_, ?_⟩
  · rcases h.keys f with hlist | hconv
    · exact absurd hlist not_mem_nil
    · exact inLine_of_converges hconv fun _ => not_mem_nil
  · rcases h.outgoing with hout | hout
    · exact absurd hout not_mem_nil
    · exact hout

end SemStreams.GraphIndex
