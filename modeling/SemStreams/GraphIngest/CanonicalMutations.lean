import SemStreams.Lib.Checks
import SemStreams.GraphIngest.Append
import SemStreams.GraphIngest.MergeEntity
/-!
# graph-ingest — the mutation lanes of the authority bucket

The operations that write an entity: the canonical create, reconcile, append and
delete requests and the merge of a Graphable arrival. Create and delete are one
conditional write each. Merge and append read, compute and write again until the
write is admitted. Reconcile reads once and writes on the condition its request
names.
-/

namespace SemStreams.GraphIngest

open SemStreams.Graph KeyedLog List Function

/-! ## Create -/

/-- `vocabulary.IsValidIndexingProfile`. -/
def isValidIndexingProfile (profile : String) : Bool :=
  profile = "content" || profile = indexingProfileControl || profile = "signal" || profile = "trace"

def stampExplicitIndexingProfile (now : ℕ) (entity : EntityState) (profile : String) : EntityState :=
  if isValidIndexingProfile profile then
    { entity with
      triples := triplesWithoutPredicate entity.triples entityIndexingProfile ++
        [indexingProfileTriple entity.id profile now] }
  else entity

/-- `graph.CreateEntityRequest`. -/
structure CreateEntityRequest where
  entity : EntityState
  triples : List Triple
  indexingProfile : String := ""

inductive CreateRejection
  | messageType
  | noRegistry
  | messageTypeUnregistered
  | authority
  | entityTriples
  | indexingProfile
  | tripleSubject (index : ℕ)
  | contract
  | entityExists
deriving DecidableEq

/-- `message.Type.IsValid`. -/
def isValidMessageType (mt : MessageType) : Bool :=
  mt.domain ≠ "" && mt.category ≠ "" && mt.version ≠ ""

def requireRegisteredMessageType (registry : PayloadRegistry) (mt : MessageType) :
    Except CreateRejection Unit :=
  match registry with
  | none => .error .noRegistry
  | some indexingProfileFor =>
    if (indexingProfileFor mt).isSome then .ok () else .error .messageTypeUnregistered

/-- The entity `handleCanonicalCreate` stores. -/
def createCandidate (registry : PayloadRegistry) (now : ℕ) (request : CreateEntityRequest) :
    EntityState :=
  reconcileIndexingProfile registry now
    (stampExplicitIndexingProfile now { request.entity with
        triples := request.triples
        version := if request.entity.version = 0 then 1 else request.entity.version
        updatedAt := if request.entity.updatedAt = 0 then now else request.entity.updatedAt }
      request.indexingProfile)

/-- `handleCanonicalCreate`: the bucket after an accepted create. -/
def handleCanonicalCreate (registry : PayloadRegistry) (authorizeSubject : String → Bool) (now : ℕ)
    (request : CreateEntityRequest) (log : KeyedLog String EntityState) :
    Except CreateRejection (KeyedLog String EntityState) := do
  if !isValidMessageType request.entity.messageType then .error .messageType
  requireRegisteredMessageType registry request.entity.messageType
  if !authorizeSubject request.entity.id then .error .authority
  if request.entity.triples ≠ [] then .error .entityTriples
  if request.indexingProfile ≠ "" ∧ !isValidIndexingProfile request.indexingProfile then
    .error .indexingProfile
  match request.triples.findIdx? fun t => t.subject ≠ request.entity.id with
  | some index => .error (.tripleSubject index)
  | none =>
    let entity := createCandidate registry now request
    if !validateEntityStateContract entity then .error .contract
    else if (current log entity.id).isSome then .error .entityExists
    else .ok ((entity.id, some entity) :: log)

/-! ## Reconcile -/

/-- `graph.ReconcilePredicatesRequest`. -/
structure ReconcilePredicatesRequest where
  entityID : String
  expectedRevision : ℕ
  predicates : List String
  desired : List Triple

inductive ReconcileRejection
  | entityID
  | authority
  | expectedRevision
  | predicatesEmpty
  | predicate
  | desiredSubject (index : ℕ)
  | desiredPredicate (index : ℕ)
  | contract
  | entityNotFound
  | resetRequired
  | revisionMismatch
deriving DecidableEq

/-- The loop over the desired triples of `validateCanonicalReconcileRequest`. -/
def validateDesired (request : ReconcilePredicatesRequest) :
    ℕ → List Triple → Except ReconcileRejection Unit
  | _, [] => .ok ()
  | index, t :: rest =>
    if t.subject ≠ request.entityID then .error (.desiredSubject index)
    else if t.predicate ∉ request.predicates then .error (.desiredPredicate index)
    else validateDesired request (index + 1) rest

def validateCanonicalReconcileRequest (request : ReconcilePredicatesRequest) :
    Except ReconcileRejection Unit := do
  if request.predicates = [] then .error .predicatesEmpty
  if !request.predicates.all isValidPredicate then .error .predicate
  validateDesired request 0 request.desired
  if !validateEntityStateContract (contractRoot request.entityID request.desired) then
    .error .contract

/-- What `sameReconcileTriple` compares: the append identity and the three fields
it leaves out. -/
def reconcileKey (t : Triple) : List Char × ℚ × ℕ × Option ℕ :=
  (appendIdentityKey t, t.confidence, t.timestamp, t.expiresAt)

def dedupeReconcileTriples (incoming : List Triple) : List Triple := keepNew reconcileKey [] incoming

def selected (predicates : List String) (t : Triple) : Bool := t.predicate ∈ predicates

/-- The counts of the current triples suffice for the desired ones. -/
def countsSuffice {κ : Type} [DecidableEq κ] : List κ → List κ → Bool
  | _, [] => true
  | counts, d :: desired => if d ∈ counts then countsSuffice (counts.erase d) desired else false

def selectedPredicatesEqual (current desired : List Triple) (predicates : List String) : Bool :=
  (current.filter (selected predicates)).length = desired.length &&
    countsSuffice ((current.filter (selected predicates)).map reconcileKey) (desired.map reconcileKey)

def reconcileSelectedPredicates (current desired : List Triple) (predicates : List String) :
    List Triple :=
  (current.filter fun t => !selected predicates t) ++ desired

section Selected

variable {current desired : List Triple} {predicates : List String} {p : String → Bool}

theorem predicate_of_reconcileKey (h : reconcileKey t = reconcileKey u) :
    t.predicate = u.predicate :=
  predicate_of_appendIdentityKey (congrArg Prod.fst h)

theorem mem_of_countsSuffice {κ : Type} [DecidableEq κ] {counts wanted : List κ} {d : κ}
    (h : countsSuffice counts wanted) (hd : d ∈ wanted) : d ∈ counts := by
  induction wanted generalizing counts with
  | nil => cases hd
  | cons e wanted ih =>
    rw [countsSuffice] at h
    split at h
    · next he =>
      rcases mem_cons.1 hd with rfl | hd
      · exact he
      · exact mem_of_mem_erase (ih h hd)
    · cases h

/-- Where nothing is to be changed, every desired triple is there. -/
theorem exists_of_selectedPredicatesEqual (h : selectedPredicatesEqual current desired predicates)
    {t : Triple} (ht : t ∈ desired) : ∃ u ∈ current, reconcileKey u = reconcileKey t := by
  rw [selectedPredicatesEqual, Bool.and_eq_true] at h
  obtain ⟨u, hu, heq⟩ := List.mem_map.1 (mem_of_countsSuffice h.2 (List.mem_map_of_mem ht))
  exact ⟨u, (mem_filter.1 hu).1, heq⟩

/-- Duplicates are dropped predicate by predicate. -/
theorem filter_dedupeReconcileTriples :
    (dedupeReconcileTriples desired).filter (fun t => p t.predicate) =
      dedupeReconcileTriples (desired.filter fun t => p t.predicate) :=
  filter_keepNew fun _ _ h => congrArg p (predicate_of_reconcileKey h)

/-- **Selected predicates are replaced.** -/
theorem filter_reconcile_of_selected (hp : ∀ q, p q → q ∈ predicates) :
    (reconcileSelectedPredicates current desired predicates).filter (fun t => p t.predicate) =
      desired.filter fun t => p t.predicate := by
  unfold reconcileSelectedPredicates
  rw [filter_append, List.filter_filter]
  have hnone : current.filter (fun t => p t.predicate && !selected predicates t) = [] := by
    rw [filter_eq_nil_iff]
    intro t _ h
    rw [Bool.and_eq_true] at h
    simp [selected, hp t.predicate h.1] at h
  rw [hnone, nil_append]

/-- **Other predicates are left alone.** -/
theorem filter_reconcile_of_unselected (hp : ∀ q, p q → q ∉ predicates)
    (hdesired : ∀ t ∈ desired, t.predicate ∈ predicates) :
    (reconcileSelectedPredicates current desired predicates).filter (fun t => p t.predicate) =
      current.filter fun t => p t.predicate := by
  unfold reconcileSelectedPredicates
  rw [filter_append, List.filter_filter]
  have hnone : desired.filter (fun t => p t.predicate) = [] := by
    rw [filter_eq_nil_iff]
    exact fun t ht h => hp t.predicate h (hdesired t ht)
  rw [hnone, append_nil]
  refine filter_congr fun t _ => ?_
  cases hpt : p t.predicate with
  | false => rfl
  | true => simp [selected, hp t.predicate hpt]

end Selected

/-- The request up to its read: what it read, or why it is refused. -/
def admitReconcile (authorizeSubject : String → Bool) (request : ReconcilePredicatesRequest)
    (log : KeyedLog String EntityState) : Except ReconcileRejection EntityState := do
  if !isValidEntityID request.entityID then .error .entityID
  if !authorizeSubject request.entityID then .error .authority
  if request.expectedRevision = 0 then .error .expectedRevision
  validateCanonicalReconcileRequest request
  match snapshot log request.entityID with
  | none => .error .entityNotFound
  | some (entity, revision) =>
    if !validateEntityStateContract entity then .error .resetRequired
    else if revision ≠ request.expectedRevision then .error .revisionMismatch
    else .ok entity

/-- The value an admitted request writes; `none` where it has nothing to change
or the write gate refuses it. -/
def reconcileCandidate (request : ReconcilePredicatesRequest) (now : ℕ) (entity : EntityState) :
    Option EntityState :=
  let desired := dedupeReconcileTriples request.desired
  if selectedPredicatesEqual entity.triples desired request.predicates then none
  else
    let candidate := { entity with
      triples := reconcileSelectedPredicates entity.triples desired request.predicates
      version := entity.version + 1
      updatedAt := now }
    if validateEntityStateContract candidate then some candidate else none

/-- What an applied reconcile wrote. -/
theorem reconcileCandidate_eq_some (h : reconcileCandidate request now entity = some candidate) :
    candidate.triples = reconcileSelectedPredicates entity.triples
        (dedupeReconcileTriples request.desired) request.predicates ∧
      validateEntityStateContract candidate := by
  simp only [reconcileCandidate] at h
  split at h
  · cases h
  split at h
  · next hvalid =>
    cases h
    exact ⟨rfl, hvalid⟩
  · cases h

/-! ## The lanes together -/

/-- A merge in progress: the incoming entity as its attempts left it, and what
the current attempt read. -/
structure MergeCall where
  entity : EntityState
  hierarchyTriples : List Triple
  seen : Option (Snapshot EntityState) := none

/-- A reconcile between its read and its write. -/
structure ReconcileCall where
  request : ReconcilePredicatesRequest
  entity : EntityState

/-- The bucket and the operations in progress. -/
structure Lanes where
  log : KeyedLog String EntityState
  appends : ℕ → Option AppendCall
  merges : ℕ → Option MergeCall
  reconciles : ℕ → Option ReconcileCall

/-- Nothing stored, nothing in progress. -/
def Lanes.empty : Lanes := ⟨[], fun _ => none, fun _ => none, fun _ => none⟩

/-- The step an operation takes, and how the store answers it. -/
inductive MutationEvent
  | create (request : CreateEntityRequest) (now : ℕ)
  | append (i : ℕ) (e : AppendEvent)
  | startMerge (i : ℕ) (entity : EntityState) (hierarchyTriples : List Triple)
  | readMerge (i : ℕ)
  | writeMerge (i stampedAt updatedAt : ℕ) (answer : StoreAnswer)
  | abandonMerge (i : ℕ)
  | startReconcile (i : ℕ) (request : ReconcilePredicatesRequest)
  | writeReconcile (i now : ℕ) (answer : StoreAnswer)
  | delete (entityID : String) (expectedRevision : ℕ)

namespace Lanes

variable (registry : PayloadRegistry) (authorizeSubject : String → Bool)

/-- The write of a merge: the closure runs on what was read and leaves its mark
on the incoming entity, whether its write is admitted or not. -/
def writeMerge (s : Lanes) (i stampedAt updatedAt : ℕ) (answer : StoreAnswer) (call : MergeCall)
    (seen : Snapshot EntityState) : Lanes :=
  let stored := updateFn registry call.hierarchyTriples call.entity
    ⟨seen.map Prod.fst, stampedAt, updatedAt⟩
  let retry : MergeCall := { call with entity := stored.2, seen := none }
  if !validateEntityStateContract stored.1 then { s with merges := update s.merges i none }
  else if admits s.log call.entity.id seen then
    match answer with
    | .ok =>
      { s with
        log := (call.entity.id, some stored.1) :: s.log
        merges := update s.merges i none }
    | .failed true =>
      { s with
        log := (call.entity.id, some stored.1) :: s.log
        merges := update s.merges i (some retry) }
    | .failed false => { s with merges := update s.merges i (some retry) }
  else { s with merges := update s.merges i (some retry) }

/-- The write of a reconcile, on the revision its request named. -/
def writeReconcile (s : Lanes) (i now : ℕ) (answer : StoreAnswer) (call : ReconcileCall) : Lanes :=
  match reconcileCandidate call.request now call.entity with
  | none => { s with reconciles := update s.reconciles i none }
  | some candidate =>
    if lastRevision s.log call.request.entityID = call.request.expectedRevision ∧
        answer ≠ .failed false then
      { s with
        log := (call.request.entityID, some candidate) :: s.log
        reconciles := update s.reconciles i none }
    else { s with reconciles := update s.reconciles i none }

/-- One step. A refused request leaves everything as it is. -/
def step (s : Lanes) : MutationEvent → Option Lanes
  | .create request now =>
    match handleCanonicalCreate registry authorizeSubject now request s.log with
    | .ok log => some { s with log := log }
    | .error _ => some s
  | .append i e =>
    (appendStep authorizeSubject s.log (s.appends i) e).map fun p =>
      { s with log := p.1, appends := update s.appends i (some p.2) }
  | .startMerge i entity hierarchyTriples =>
    match s.merges i with
    | some _ => none
    | none =>
      if isValidEntityID entity.id then
        some { s with merges := update s.merges i (some ⟨entity, hierarchyTriples, none⟩) }
      else some s
  | .readMerge i =>
    match s.merges i with
    | some ⟨entity, hierarchyTriples, none⟩ =>
      some { s with
        merges := update s.merges i
          (some ⟨entity, hierarchyTriples, some (snapshot s.log entity.id)⟩) }
    | _ => none
  | .writeMerge i stampedAt updatedAt answer =>
    match s.merges i with
    | some ⟨entity, hierarchyTriples, some seen⟩ =>
      some (s.writeMerge registry i stampedAt updatedAt answer
        ⟨entity, hierarchyTriples, some seen⟩ seen)
    | _ => none
  | .abandonMerge i =>
    match s.merges i with
    | some _ => some { s with merges := update s.merges i none }
    | none => none
  | .startReconcile i request =>
    match s.reconciles i with
    | some _ => none
    | none =>
      match admitReconcile authorizeSubject request s.log with
      | .ok entity => some { s with reconciles := update s.reconciles i (some ⟨request, entity⟩) }
      | .error _ => some s
  | .writeReconcile i now answer =>
    match s.reconciles i with
    | some call => some (s.writeReconcile i now answer call)
    | none => none
  | .delete entityID expectedRevision =>
    match snapshot s.log entityID with
    | some (_, revision) =>
      if revision = expectedRevision then some { s with log := (entityID, none) :: s.log } else some s
    | none => some s

end Lanes

end SemStreams.GraphIngest
