import SemStreams.GraphIngest.CanonicalMutations
import SemStreams.Lifecycle.Records
import SemStreams.Lifecycle.Transitions
/-!
# Lifecycle — the manager

A manager reads an entity, computes the triples its call writes and sends them to
the authority as one create, reconcile or delete request on the condition of what
it read. The phase, the audit summary, the record window and the mutated fields
of a transition go into one request. Calls of any number of clients on one
entity interleave between their reads and their writes; a transition or an
update whose condition fails reads again.

The authority is taken at its documented word: a create stores the request's
triples if there is no entity, and a reconcile makes the named predicates equal
the desired triples.
-/

namespace SemStreams.Lifecycle

open SemStreams.Graph GraphIngest KeyedLog Function

/-! ## Registered workflows -/

/-- `fieldMeta`; a field with no predicate is not projected. -/
structure FieldMeta where
  jsonName : String
  predicate : String
  isID : Bool := false
  isPhase : Bool := false
  isReference : Bool := false
  readOnly : Bool := false
  operatorWritable : Bool := false

/-- `AuditSpec`; an empty predicate is not stamped. -/
structure AuditSpec where
  source : String := ""
  time : String := ""
  fromPhase : String := ""
  note : String := ""

structure Workflow where
  name : String
  entityIDPattern : String
  transitions : Transitions
  phasePredicate : String
  audit : AuditSpec := {}

/-- `registration`: a workflow and the fields of its schema, as `Register`
accepts them. -/
structure Registration where
  workflow : Workflow
  fields : List FieldMeta
  table : workflow.transitions.validate = .ok ()
  roles : ∀ f ∈ fields, (f.isID || f.isPhase || f.isReference) = true →
    f.readOnly = true ∧ f.operatorWritable = false
  writable : ∀ f ∈ fields, f.operatorWritable = true → f.predicate ≠ ""
  jsonNames : (fields.map FieldMeta.jsonName).Nodup
  predicates : ((fields.map FieldMeta.predicate).filter (· ≠ "")).Nodup

namespace Registration

variable (reg : Registration)

def fieldsByPredicate : List FieldMeta := reg.fields.filter fun f => f.predicate ≠ ""

/-- `FieldsByJSONName`. -/
def fieldByJSONName (jsonName : String) : Option FieldMeta :=
  reg.fields.find? fun f => f.jsonName = jsonName

end Registration

/-- Segment by segment, a star for any. -/
def segmentsMatch : List (List Char) → List (List Char) → Bool
  | [], [] => true
  | p :: ps, s :: ss => (p = ['*'] || p = s) && segmentsMatch ps ss
  | _, _ => false

/-- `semtypes.MatchEntityIDPattern` for a registered pattern. -/
def matchEntityIDPattern (pattern entityID : String) : Bool :=
  isValidEntityID entityID && segmentsMatch (tokens pattern) (tokens entityID)

def matchPattern (pattern id : String) : Bool :=
  pattern ≠ "" && (pattern = id || pattern = "*" || segmentsMatch (tokens pattern) (tokens id))

/-! ## Triples and fields -/

/-- The layout of times, and `fmt.Sprintf` of a value that is no string. -/
structure Formats extends TimeLayout where
  sprint : String → String

/-- The clock readings and the occurrence id of one attempt. -/
structure Clock where
  now : ℕ
  stamps : ℕ → ℕ
  uuid : String

/-- A `Participant`: its `Phase()`, and its non-zero fields by predicate. -/
structure Participant where
  phase : String
  value : String → Option Object

/-- A field of the projected struct after the mutator ran, and its text as the
diff prints it. -/
structure FieldValue where
  object : Object
  isZero : Bool
  text : String

def triple (subject predicate : String) (object : Object) (stamp : ℕ) : Triple where
  subject := subject
  predicate := predicate
  object := object
  timestamp := stamp

/-- The triple belongs to the entity and has the predicate. -/
def ownTriple (entityID predicate : String) (t : Triple) : Bool :=
  t.predicate = predicate && (t.subject = "" || t.subject = entityID)

def hasTriple (triples : List Triple) (entityID predicate : String) : Bool :=
  triples.any (ownTriple entityID predicate)

def Formats.scalar (formats : Formats) : Object → String
  | .text value => value
  | .json value => formats.sprint value

/-- `extractTripleScalar`: the last match counts. -/
def extractTripleScalar (formats : Formats) (triples : List Triple) (entityID predicate : String) :
    String :=
  match (triples.filter (ownTriple entityID predicate)).getLast? with
  | none => ""
  | some t => formats.scalar t.object

def uniqueStrings (values : List String) : List String := keepNew id [] values

def predicatesOf (triples : List Triple) : List String := uniqueStrings (triples.map Triple.predicate)

/-- What a call writes beside phase and records, each triple stamped on its own. -/
def stampFacts (entityID : String) (stamps : ℕ → ℕ) (facts : List (String × Object)) : List Triple :=
  facts.mapIdx fun i fact => triple entityID fact.1 fact.2 (stamps (i + 1))

section Facts

variable (formats : Formats) (reg : Registration) (entityID : String)

/-- `projectStructToTriples`: the phase field is projected, other read-only
fields are not. -/
def projectStruct (initial : Participant) : List (String × Object) :=
  reg.fieldsByPredicate.filterMap fun f =>
    if f.isID || (f.readOnly && !f.isPhase) then none
    else (initial.value f.predicate).map fun v => (f.predicate, v)

/-- The summary `Create` stamps. -/
def initialAudit (source : String) (now : ℕ) : List (String × Object) :=
  [(reg.workflow.audit.source, Object.text source),
    (reg.workflow.audit.time, .text (formats.format now)),
    (reg.workflow.audit.note, .text "created")].filter fun fact => fact.1 ≠ ""

def buildInitialTriples (initial : Participant) (source : String) (clock : Clock) : List Triple :=
  triple entityID reg.workflow.phasePredicate (.text initial.phase) (clock.stamps 0) ::
    (transitionRecordsToTriples formats.toTimeLayout entityID
        [⟨clock.uuid, "", initial.phase, clock.now, source, "created"⟩] ++
      stampFacts entityID clock.stamps
        (initialAudit formats reg source clock.now ++ projectStruct reg initial))

def transitionAudit (currentPhase source note : String) (time : ℕ) : List (String × Object) :=
  ([(reg.workflow.audit.source, Object.text source),
    (reg.workflow.audit.time, .text (formats.format time)),
    (reg.workflow.audit.fromPhase, .text currentPhase)] ++
    if note = "" then [] else [(reg.workflow.audit.note, Object.text note)]).filter fun fact => fact.1 ≠ ""

/-- `diffProjectedTriples` of the fields after the mutator ran. -/
def diffProjected (original : List Triple) (mutated : String → FieldValue) :
    List (String × Object) :=
  reg.fieldsByPredicate.filterMap fun f =>
    if f.isPhase || f.readOnly then none
    else
      let hasOriginal := hasTriple original entityID f.predicate
      let new := mutated f.predicate
      if !hasOriginal && new.isZero then none
      else if hasOriginal &&
          extractTripleScalar formats original entityID f.predicate = new.text then
        none
      else some (f.predicate, new.object)

end Facts

/-! ## Calls -/

inductive LifecycleError
  | entityNotFound
  | entityIDPatternMismatch
  | invalidTransition
  | terminalPhase
  | notLifecycleManaged
  | alreadyExists
  | fieldNotOperatorWritable
  | failWithoutReason
  | invalidRecord (err : RecordError)
deriving DecidableEq

/-- A call of the manager. A mutator is given by the fields it leaves; `reclaim`
is the deletion `DespawnWith` sends after its transition. -/
inductive Op
  | create (initial : Participant) (byOperator : Bool)
  | transition (newPhase source note : String) (mutated : Option (String → FieldValue))
      (reclaim : Bool)
  | complete
  | fail (reason : String)
  | update (patch : List (String × Option Object))
  | despawn
  | despawnWith (source note : String)

inductive Request
  | create (triples : List Triple)
  | reconcile (expectedRevision : ℕ) (predicates : List String) (desired : List Triple)
  | delete (expectedRevision : ℕ)

/-- What an attempt comes to: a request, or the call it goes on with. -/
inductive Attempt
  | request (request : Request)
  | goOn (op : Op)
  | done

section Attempts

variable (formats : Formats) (reg : Registration) (entityID : String)

/-- The attribution of `Create` and of `CreateFromOperator`. -/
def createSource (byOperator : Bool) : String := if byOperator then "operator" else "framework"

/-- `createWithRegistration` up to its request. -/
def attemptCreate (initial : Participant) (byOperator : Bool) (seen : Snapshot (List Triple))
    (clock : Clock) : Except LifecycleError Attempt :=
  if !matchEntityIDPattern reg.workflow.entityIDPattern entityID then
    .error .entityIDPatternMismatch
  else if !reg.workflow.transitions.declared initial.phase then .error .invalidTransition
  else
    let delta := buildInitialTriples formats reg entityID initial (createSource byOperator) clock
    match seen with
    | none => .ok (.request (.create delta))
    | some (triples, revision) =>
      if hasTriple triples entityID reg.workflow.phasePredicate then .error .alreadyExists
      else .ok (.request (.reconcile revision (predicatesOf delta) delta))

/-- The current phase and the records a transition starts from. -/
def transitionSource (newPhase : String) (triples : List Triple) :
    Except LifecycleError (String × List TransitionRecord) :=
  let currentPhase := extractTripleScalar formats triples entityID reg.workflow.phasePredicate
  if currentPhase = "" then .error .notLifecycleManaged
  else if reg.workflow.transitions.isTerminal currentPhase then .error .terminalPhase
  else if !reg.workflow.transitions.isValidTransition currentPhase newPhase then
    .error .invalidTransition
  else
    match decodeTransitionRecords formats.toTimeLayout entityID triples with
    | .error err => .error (.invalidRecord err)
    | .ok records =>
      match validateTransitionRecordChain records currentPhase with
      | .error err => .error (.invalidRecord err)
      | .ok () => .ok (currentPhase, records)

def nextRecord (currentPhase newPhase source note : String) (records : List TransitionRecord)
    (clock : Clock) : TransitionRecord :=
  ⟨clock.uuid, currentPhase, newPhase, nextTransitionTimestamp records clock.now, source, note⟩

def transitionDelta (newPhase : String) (record : TransitionRecord)
    (records : List TransitionRecord) (mutated : Option (String → FieldValue))
    (triples : List Triple) (clock : Clock) : List Triple :=
  triple entityID reg.workflow.phasePredicate (.text newPhase) (clock.stamps 0) ::
    (transitionRecordsToTriples formats.toTimeLayout entityID records ++
      stampFacts entityID clock.stamps
        (transitionAudit formats reg record.event.fromPhase record.event.triggered
            record.event.note record.event.time ++
          match mutated with
          | none => []
          | some fields => diffProjected formats reg entityID triples fields))

/-- One round of `transitionWithOutcome`. -/
def attemptTransition (newPhase source note : String) (mutated : Option (String → FieldValue))
    (seen : Snapshot (List Triple)) (clock : Clock) : Except LifecycleError Attempt :=
  if !isTransitionSource source then .error .invalidTransition
  else if !reg.workflow.transitions.declared newPhase then .error .invalidTransition
  else
    match seen with
    | none => .error .entityNotFound
    | some (triples, revision) =>
      match transitionSource formats reg entityID newPhase triples with
      | .error err => .error err
      | .ok (currentPhase, records) =>
        let record := nextRecord currentPhase newPhase source note records clock
        let records := appendTransitionRecord records record
        match validateTransitionRecordChain records newPhase with
        | .error err => .error (.invalidRecord err)
        | .ok () =>
          let delta := transitionDelta formats reg entityID newPhase record records mutated triples
            clock
          .ok (.request (.reconcile revision
            (uniqueStrings (predicatesOf delta ++ transitionRecordPredicates)) delta))

/-- `projectPatchToTriples`: what to add and what to remove. -/
def projectPatch : List (String × Option Object) →
    Except LifecycleError (List (String × Object) × List String)
  | [] => .ok ([], [])
  | (jsonName, value) :: rest =>
    match reg.fieldByJSONName jsonName with
    | none => .error .fieldNotOperatorWritable
    | some f =>
      if !f.operatorWritable then .error .fieldNotOperatorWritable
      else
        match projectPatch rest with
        | .error err => .error err
        | .ok (adds, removes) =>
          match value with
          | none => .ok (adds, f.predicate :: removes)
          | some v => .ok ((f.predicate, v) :: adds, removes)

/-- One round of `UpdateFromOperator`. -/
def attemptUpdate (patch : List (String × Option Object)) (seen : Snapshot (List Triple))
    (clock : Clock) : Except LifecycleError Attempt :=
  if patch = [] then .ok .done
  else
    match projectPatch reg patch with
    | .error err => .error err
    | .ok (adds, removes) =>
      match seen with
      | none => .error .entityNotFound
      | some (triples, revision) =>
        if !hasTriple triples entityID reg.workflow.phasePredicate then .error .notLifecycleManaged
        else
          let adds := stampFacts entityID clock.stamps adds
          .ok (.request (.reconcile revision (uniqueStrings (removes ++ predicatesOf adds)) adds))

/-- The terminal phase `Complete` and `DespawnWith` go for; `none` when the
entity is in one already. -/
def selectTerminal (triples : List Triple) : Except LifecycleError (Option String) :=
  let currentPhase := extractTripleScalar formats triples entityID reg.workflow.phasePredicate
  if currentPhase = "" then .error .notLifecycleManaged
  else if reg.workflow.transitions.isTerminal currentPhase then .ok none
  else
    match reg.workflow.transitions.reachableTerminal currentPhase with
    | none => .error .invalidTransition
    | some terminal => .ok (some terminal)

/-- What a call does with what it read. -/
def attempt (op : Op) (seen : Snapshot (List Triple)) (clock : Clock) :
    Except LifecycleError Attempt :=
  match op with
  | .create initial byOperator => attemptCreate formats reg entityID initial byOperator seen clock
  | .transition newPhase source note mutated _ =>
    attemptTransition formats reg entityID newPhase source note mutated seen clock
  | .complete =>
    match seen with
    | none => .error .entityNotFound
    | some (triples, _) =>
      match selectTerminal formats reg entityID triples with
      | .error err => .error err
      | .ok none => .error .terminalPhase
      | .ok (some terminal) => .ok (.goOn (.transition terminal "framework" "" none false))
  | .fail reason =>
    if reason = "" then .error .failWithoutReason
    else if !reg.workflow.transitions.declared "failed" then .error .invalidTransition
    else .ok (.goOn (.transition "failed" "framework" reason none false))
  | .update patch => attemptUpdate reg entityID patch seen clock
  | .despawn =>
    if !matchPattern reg.workflow.entityIDPattern entityID then .error .entityIDPatternMismatch
    else
      match seen with
      | none => .error .entityNotFound
      | some (_, revision) => .ok (.request (.delete revision))
  | .despawnWith source note =>
    if !matchPattern reg.workflow.entityIDPattern entityID then .error .entityIDPatternMismatch
    else
      match seen with
      | none => .ok .done
      | some (triples, revision) =>
        match selectTerminal formats reg entityID triples with
        | .error err => .error err
        | .ok none => .ok (.request (.delete revision))
        | .ok (some terminal) => .ok (.goOn (.transition terminal source note none true))

end Attempts

/-- `Manager.History`. -/
def history (formats : Formats) (reg : Registration) (entityID : String)
    (seen : Snapshot (List Triple)) : Except LifecycleError (List TransitionEvent) :=
  match seen with
  | none => .error .entityNotFound
  | some (triples, _) =>
    if !hasTriple triples entityID reg.workflow.phasePredicate then .error .notLifecycleManaged
    else
      match decodeTransitionRecords formats.toTimeLayout entityID triples with
      | .error err => .error (.invalidRecord err)
      | .ok records =>
        match validateTransitionRecordChain records
            (extractTripleScalar formats triples entityID reg.workflow.phasePredicate) with
        | .error err => .error (.invalidRecord err)
        | .ok () => .ok (records.map TransitionRecord.event)

/-! ## The authority -/

/-- The committed states of the entity, newest first. -/
abbrev Commits := KeyedLog Unit (List Triple)

inductive Reply
  | applied (commits : Commits)
  | entityExists
  | entityNotFound
  | revisionMismatch

def applyRequest (commits : Commits) : Request → Reply
  | .create triples =>
    if (current commits ()).isSome then .entityExists else .applied (((), some triples) :: commits)
  | .reconcile expectedRevision predicates desired =>
    match snapshot commits () with
    | none => .entityNotFound
    | some (triples, revision) =>
      if revision ≠ expectedRevision then .revisionMismatch
      else
        let desired := dedupeReconcileTriples desired
        if selectedPredicatesEqual triples desired predicates then .applied commits
        else
          .applied (((), some (reconcileSelectedPredicates triples desired predicates)) :: commits)
  | .delete expectedRevision =>
    match snapshot commits () with
    | none => .entityNotFound
    | some (_, revision) =>
      if revision ≠ expectedRevision then .revisionMismatch else .applied (((), none) :: commits)

/-! ## Clients side by side -/

def updateRetries : ℕ := 5

/-- A call before its read, or with its request under way. -/
inductive Call
  | calling (op : Op) (retry : ℕ)
  | requesting (op : Op) (retry : ℕ) (request : Request)

structure Clients where
  commits : Commits
  calls : ℕ → Option Call

/-- A client calls; it reads and computes its request; the request reaches the
authority; or the client gives up. -/
inductive ClientEvent
  | call (n : ℕ) (op : Op)
  | read (n : ℕ) (clock : Clock)
  | write (n : ℕ)
  | abandon (n : ℕ)

/-- Where a call goes after its request was answered. -/
def Op.next (op : Op) (retry : ℕ) (commits : Commits) : Reply → Option Call
  | .applied _ =>
    match op with
    | .transition _ _ _ _ true => some (.requesting .despawn 0 (.delete (lastRevision commits ())))
    | _ => none
  | .revisionMismatch =>
    match op with
    | .transition .. | .update _ =>
      if retry + 1 < updateRetries then some (.calling op (retry + 1)) else none
    | _ => none
  | _ => none

/-- `uuid.NewString` gives an id the entity does not carry. -/
def Clock.fresh (clock : Clock) (commits : Commits) : Bool :=
  clock.uuid ≠ "" && ((current commits ()).getD []).all fun t => t.context ≠ clock.uuid

variable (formats : Formats) (reg : Registration) (entityID : String)

def clientStep (s : Clients) : ClientEvent → Option Clients
  | .call n op =>
    match s.calls n with
    | some _ => none
    | none => some { s with calls := update s.calls n (some (.calling op 0)) }
  | .read n clock =>
    match s.calls n with
    | some (.calling op retry) =>
      if clock.fresh s.commits then
        let next := match attempt formats reg entityID op (snapshot s.commits ()) clock with
          | .ok (.request request) => some (Call.requesting op retry request)
          | .ok (.goOn op') => some (.calling op' 0)
          | .ok .done | .error _ => none
        some { s with calls := update s.calls n next }
      else none
    | _ => none
  | .write n =>
    match s.calls n with
    | some (.requesting op retry request) =>
      let reply := applyRequest s.commits request
      let commits := match reply with
        | .applied commits => commits
        | _ => s.commits
      some ⟨commits, update s.calls n (op.next retry commits reply)⟩
    | _ => none
  | .abandon n => some { s with calls := update s.calls n none }

end SemStreams.Lifecycle
