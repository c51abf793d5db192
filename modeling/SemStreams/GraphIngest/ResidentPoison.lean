import SemStreams.Lib.RetryLoop
import SemStreams.GraphIngest.MergeEntity
import SemStreams.GraphIngest.Append
import SemStreams.GraphIngest.PoisonInventory
/-!
# graph-ingest — writing over a poisoned resident

The merge and the append lanes decode the resident bytes without validating them,
and rely on the gate before the write: what is wrong with the resident is still
wrong with the candidate. That holds for an append, which keeps every resident
triple. A merge drops the resident triples under a subject and predicate the
arrival carries, and the profile triples after the first, so it commits exactly
if everything wrong with the resident is among what it drops.
-/

namespace SemStreams.GraphIngest

open SemStreams.Graph List Option

variable {Bytes : Type*}

/-! ## The lanes on stored bytes -/

/-- The JSON of an entity, and whether a value has no bytes at all. -/
structure Codec (Bytes : Type*) where
  parse : Bytes → Option EntityState
  render : EntityState → Bytes
  isEmpty : Bytes → Bool

/-- How an update closure ends without a value to store. -/
inductive RMWError
  | decode
  | contract
  | notFound
  | noOpAddDuplicate
  | stateReset (reason : StateResetReason)
deriving DecidableEq

namespace Codec

variable (codec : Codec Bytes)

def marshalEntityState (entity : EntityState) : Option Bytes :=
  if validateEntityStateContract entity then some (codec.render entity) else none

/-- `classifyStoredStateRMWError`: the resident is blamed where it is at fault. -/
def classifyStoredStateRMWError (current : Bytes) (cycleErr : RMWError) : RMWError :=
  match unmarshalEntityState codec.parse current with
  | .ok _ => cycleErr
  | .error reason => .stateReset reason

/-- The update closure of `mergeEntityOnLane` on stored bytes, with the times it
reads, and the incoming entity as it leaves it. -/
def mergeClosure (registry : PayloadRegistry) (hierarchyTriples : List Triple)
    (entity : EntityState) (times : ℕ × ℕ) (current : Option Bytes) :
    Except RMWError Bytes × EntityState :=
  match current.filter fun data => !codec.isEmpty data with
  | none =>
    let (born, left) := updateFn registry hierarchyTriples entity ⟨none, times.1, times.2⟩
    match codec.marshalEntityState born with
    | some data => (.ok data, left)
    | none => (.error .contract, left)
  | some data =>
    match codec.parse data with
    | none => (.error (codec.classifyStoredStateRMWError data .decode), entity)
    | some existing =>
      let (merged, left) :=
        updateFn registry hierarchyTriples entity ⟨some existing, times.1, times.2⟩
      match codec.marshalEntityState merged with
      | some data => (.ok data, left)
      | none => (.error (codec.classifyStoredStateRMWError data .contract), left)

/-- The update closure of `addTripleLane`, for a group of one, and of
`addTriplesLane` on stored bytes. -/
def appendClosure (group : List Triple) (times : ℕ × ℕ) (current : Option Bytes) :
    Except RMWError Bytes :=
  match current.filter fun data => !codec.isEmpty data with
  | none => .error .notFound
  | some data =>
    match codec.parse data with
    | none => .error (codec.classifyStoredStateRMWError data .decode)
    | some entity =>
      match GraphIngest.appendClosure group times.2 (some entity) with
      | .ok (candidate, _) => .ok (codec.render candidate)
      | .error .contract => .error (codec.classifyStoredStateRMWError data .contract)
      | .error .notFound => .error .notFound
      | .error (.noOpAddDuplicate _) => .error .noOpAddDuplicate

end Codec

/-- A write submitted for a key: an arrival with the hierarchy triples inferred for
it, or triples of one subject. -/
inductive Submission
  | merge (hierarchyTriples : List Triple) (entity : EntityState)
  | append (subject : String) (group : List Triple)

namespace Submission

/-- The checks before the first read. -/
def admitted (authorizeSubject : String → Bool) : Submission → Bool
  | .merge _ entity => isValidEntityID entity.id && authorizeSubject entity.id
  | .append subject group =>
    validateEntityStateContract (contractRoot subject group) && authorizeSubject subject

/-- The operation on the value of its key: what is stored at its end, and how often
it wrote. -/
def perform (codec : Codec Bytes) (registry : PayloadRegistry) (authorizeSubject : String → Bool)
    (submission : Submission) (current : Option Bytes) (attempts : List (RetryAttempt (ℕ × ℕ))) :
    Option Bytes × ℕ :=
  if submission.admitted authorizeSubject then
    match submission with
    | .merge hierarchyTriples entity =>
      retryLoop (codec.mergeClosure registry hierarchyTriples) entity current attempts
    | .append _ group =>
      retryLoop (fun _ times current => (codec.appendClosure group times current, ())) () current
        attempts
  else (current, 0)

end Submission

/-! ## What a merge drops -/

/-- The triple passes every check of the contract that is about triples. -/
def canonicalTriple (t : Triple) : Bool :=
  isValidEntityID t.subject && t.referenceOk && isValidPredicate t.predicate

/-- The incoming triples a merge works with. -/
def arriving (existing entity : EntityState) : List Triple :=
  if hasIndexingProfileTriple existing.triples then
    triplesWithoutPredicate entity.triples entityIndexingProfile
  else entity.triples

/-- **The merge drops whatever is wrong with the resident**, and brings nothing wrong
itself. A resident triple goes where the arrival carries its subject and predicate;
a profile triple after the first goes in any case. -/
structure Supersedes (existing entity : EntityState) : Prop where
  id : isValidEntityID existing.id = true
  arriving : ∀ t ∈ core (arriving existing entity), canonicalTriple t = true
  resident : ∀ t ∈ core existing.triples, canonicalTriple t = false →
    Carries (GraphIngest.arriving existing entity) t.key

/-- **The poison stays where it is.** An append never writes over it. A merge does
not where it is not admitted, where the bytes cannot be decoded, and where some of
it is not dropped; a value without any bytes passes for no value at all, and then
the arrival's own faults decide. -/
def Submission.HoldsPoison (codec : Codec Bytes) (authorizeSubject : String → Bool)
    (resident : Bytes) : Submission → Prop
  | .append _ _ => True
  | .merge hierarchyTriples entity =>
    (Submission.merge hierarchyTriples entity).admitted authorizeSubject = true →
      if codec.isEmpty resident then
        ∃ t ∈ core (entity.triples ++ hierarchyTriples), canonicalTriple t = false
      else ∀ existing, codec.parse resident = some existing → ¬ Supersedes existing entity

section Candidates

variable {existing entity : EntityState} {registry : PayloadRegistry}

theorem validate_iff : validateEntityStateContract entity ↔
    isValidEntityID entity.id ∧ ∀ t ∈ entity.triples, canonicalTriple t := by
  simp only [validateEntityStateContract, canonicalTriple, Bool.and_eq_true, List.all_eq_true,
    Bool.or_eq_true, decide_eq_true_eq]
  constructor
  · rintro ⟨⟨⟨hid, hsubjects⟩, hrefs⟩, hpredicates⟩
    refine ⟨hid, ?_⟩
    intro t ht
    refine ⟨⟨?_, hrefs t ht⟩, hpredicates t ht⟩
    rcases hsubjects t ht with heq | hvalid
    · rw [heq]
      exact hid
    · exact hvalid
  · rintro ⟨hid, hall⟩
    exact ⟨⟨⟨hid, fun t ht => .inr (hall t ht).1.1⟩, fun t ht => (hall t ht).1.2⟩,
      fun t ht => (hall t ht).2⟩

/-- The floor appended at the end is never at fault. -/
theorem validate_reconcile (now : ℕ) :
    validateEntityStateContract (reconcileIndexingProfile registry now entity) ↔
      isValidEntityID entity.id ∧ ∀ t ∈ core entity.triples, canonicalTriple t := by
  rw [reconcile_eq, validate_iff]
  refine and_congr_right ?_
  intro hid
  simp only [forall_mem_append]
  refine and_iff_left_of_imp ?_
  intro _ t ht
  split at ht
  · exact absurd ht not_mem_nil
  obtain rfl := mem_singleton.1 ht
  simp only [canonicalTriple, indexingProfileTriple, hid, Bool.true_and, Bool.and_eq_true]
  constructor
  · rfl
  · decide +kernel

/-- What a merge works with, profile by profile. -/
theorem core_mergeInto : core (mergeInto existing entity).triples =
    core (arriving existing entity) ++
      (core existing.triples).filter fun t => !conflicts (arriving existing entity) t := by
  have hmerge : (mergeInto existing entity).triples =
      mergeTriples existing.triples (arriving existing entity) := rfl
  rw [hmerge, mergeTriples_eq, core, keepFirst_append]
  congr 1
  unfold arriving
  split
  · -- the resident's first profile is not in conflict with anything that arrives
    have hnone : ∀ t ∈ triplesWithoutPredicate entity.triples entityIndexingProfile,
        isProfile t = false := by
      intro t ht
      rw [triplesWithoutPredicate_eq, mem_filter] at ht
      simpa using ht.2
    have hany : (triplesWithoutPredicate entity.triples entityIndexingProfile).any isProfile =
        false := by
      simpa [List.any_eq_false] using hnone
    rw [hany, Bool.or_false]
    refine keepFirst_filter ?_
    intro t ht
    rw [Bool.not_eq_true', Bool.eq_false_iff, ne_eq, conflicts_iff]
    rintro ⟨n, hn, hkey⟩
    have hpredicate : n.predicate = t.predicate := congrArg Prod.snd hkey
    have hn' := hnone n hn
    rw [isProfile, hpredicate] at hn'
    rw [isProfile, hn'] at ht
    exact Bool.false_ne_true ht
  · next hno =>
    have hfree := isProfile_eq_false (Bool.not_eq_true _ ▸ hno)
    rw [keepFirst_of_none (fun t ht => hfree t (mem_of_mem_filter ht)), core,
      keepFirst_of_none hfree]

/-- **The gate lets a merge pass exactly if it drops what is wrong.** -/
theorem validate_merge (hcurrent : r.current = some existing) :
    validateEntityStateContract (updateFn registry hierarchyTriples entity r).1 ↔
      Supersedes existing entity := by
  have hvalue : validateEntityStateContract (updateFn registry hierarchyTriples entity r).1 =
      validateEntityStateContract
        (reconcileIndexingProfile registry r.stampedAt (mergeInto existing entity)) := by
    simp only [updateFn, hcurrent]
    rfl
  rw [hvalue, validate_reconcile, core_mergeInto, forall_mem_append]
  have hid : (mergeInto existing entity).id = existing.id := rfl
  have hkept : (∀ t ∈ (core existing.triples).filter
        fun t => !conflicts (arriving existing entity) t, canonicalTriple t) ↔
      ∀ t ∈ core existing.triples, canonicalTriple t = false →
        Carries (arriving existing entity) t.key := by
    simp only [mem_filter, Bool.not_eq_true', and_imp]
    refine forall₂_congr ?_
    intro t _
    have hconflicts : conflicts (arriving existing entity) t ↔
        Carries (arriving existing entity) t.key := conflicts_iff
    rw [← hconflicts]
    cases conflicts (arriving existing entity) t <;> cases canonicalTriple t <;> decide
  rw [hid, hkept]
  constructor <;> rintro ⟨h₁, h₂, h₃⟩ <;> exact ⟨h₁, h₂, h₃⟩

end Candidates

/-! ## The closures -/

variable {codec : Codec Bytes} {registry : PayloadRegistry} {hierarchyTriples : List Triple}
  {entity : EntityState} {resident : Bytes} {times : ℕ × ℕ}

theorem marshal_eq_none : codec.marshalEntityState entity = none ↔
    ¬ validateEntityStateContract entity := by
  simp [Codec.marshalEntityState]

/-- Over a resident that is there, the merge closure gives an error unless it drops
what is wrong. -/
theorem mergeClosure_error_iff (hfull : codec.isEmpty resident = false) :
    (∃ err, (codec.mergeClosure registry hierarchyTriples entity times (some resident)).1 =
        .error err) ↔
      ∀ existing, codec.parse resident = some existing → ¬ Supersedes existing entity := by
  simp only [Codec.mergeClosure, filter_some, hfull, Bool.not_false, if_true]
  cases hparse : codec.parse resident with
  | none => simp
  | some existing =>
    simp only [Option.some.injEq, forall_eq']
    rw [← @validate_merge existing entity registry hierarchyTriples
      ⟨some existing, times.1, times.2⟩ rfl, ← @marshal_eq_none _ codec]
    cases codec.marshalEntityState
      (updateFn registry hierarchyTriples entity ⟨some existing, times.1, times.2⟩).1 <;> simp

theorem mergeClosure_error_iff_of_empty (hempty : codec.isEmpty resident)
    (hid : isValidEntityID entity.id) :
    (∃ err, (codec.mergeClosure registry hierarchyTriples entity times (some resident)).1 =
        .error err) ↔
      ∃ t ∈ core (entity.triples ++ hierarchyTriples), canonicalTriple t = false := by
  have hbirth : validateEntityStateContract
      (updateFn registry hierarchyTriples entity ⟨none, times.1, times.2⟩).1 ↔ _ :=
    validate_reconcile times.1
  simp only [hid, true_and] at hbirth
  simp only [Codec.mergeClosure, filter_some, hempty, Bool.not_true, Bool.false_eq_true, if_false]
  have hneg : (∃ t ∈ core (entity.triples ++ hierarchyTriples), canonicalTriple t = false) ↔
      ¬ ∀ t ∈ core (entity.triples ++ hierarchyTriples), canonicalTriple t := by
    simp
  rw [hneg, ← hbirth, ← @marshal_eq_none _ codec]
  cases codec.marshalEntityState
    (updateFn registry hierarchyTriples entity ⟨none, times.1, times.2⟩).1 <;> simp

theorem appendClosure_error (group : List Triple) (hpoison : decodes codec.parse resident = false) :
    ∃ err, codec.appendClosure group times (some resident) = .error err := by
  unfold Codec.appendClosure
  rw [filter_some]
  cases codec.isEmpty resident with
  | true => exact ⟨_, rfl⟩
  | false =>
    simp only [Bool.not_false, if_true]
    cases hparse : codec.parse resident with
    | none => exact ⟨_, rfl⟩
    | some entity =>
      have hinvalid : ¬ validateEntityStateContract entity := by
        intro hvalid
        simp [decodes, unmarshalEntityState, hparse, hvalid, Except.isOk, Except.toBool] at hpoison
      dsimp only
      cases hclosure : appendClosure group times.2 (some entity) with
      | ok result =>
        -- an append keeps every resident triple, and with them what is wrong
        simp only [appendClosure] at hclosure
        split at hclosure
        · cases hclosure
        split at hclosure
        · next hvalid =>
          rw [validate_iff] at hvalid hinvalid
          exact absurd ⟨hvalid.1, fun t ht => hvalid.2 t (mem_append_left _ ht)⟩ hinvalid
        · cases hclosure
      | error stop => cases stop <;> exact ⟨_, rfl⟩

/-- **What keeps a poisoned resident as it is.** Of the writes submitted for its key,
whatever the store answers, exactly those that hold the poison commit nothing and
leave the bytes alone. -/
theorem poison_held_iff {codec : Codec Bytes} {registry : PayloadRegistry}
    {authorizeSubject : String → Bool} {resident : Bytes} {submission : Submission}
    (hpoison : decodes codec.parse resident = false) :
    (∀ attempts, submission.perform codec registry authorizeSubject (some resident) attempts =
        (some resident, 0)) ↔
      submission.HoldsPoison codec authorizeSubject resident := by
  unfold Submission.perform
  cases submission with
  | append subject group =>
    simp only [Submission.HoldsPoison, iff_true]
    intro attempts
    split
    · exact retryLoop_of_error (fun _ => appendClosure_error group hpoison) attempts
    · rfl
  | merge hierarchyTriples entity =>
    unfold Submission.HoldsPoison
    by_cases hadmitted : (Submission.merge hierarchyTriples entity).admitted authorizeSubject
    · simp only [hadmitted, if_true, forall_const, retryLoop_untouched_iff]
      have hid : isValidEntityID entity.id := by
        simp only [Submission.admitted, Bool.and_eq_true] at hadmitted
        exact hadmitted.1
      cases hempty : codec.isEmpty resident with
      | true => simp [mergeClosure_error_iff_of_empty hempty hid]
      | false =>
        simp [mergeClosure_error_iff hempty]
    · simp [hadmitted]

/-! ## A fleet with a broken reference -/

/-- Entities stored as they are, none of them without bytes. -/
def plainCodec : Codec EntityState := ⟨some, id, fun _ => false⟩

/-- A reference to something with no entity id. -/
def strayLeader : Triple where
  subject := "acme.dep1.fleet.robotics.drone.1"
  predicate := "robotics.fleet.leader"
  object := .text "drone 7"
  datatype := entityReferenceDatatype

def strayFollower : EntityState := { batteryArrival with triples := [strayLeader] }

/-- The drone reports another leader. -/
def leaderArrival : EntityState :=
  { batteryArrival with
    triples := [{ strayLeader with object := .text "acme.dep1.fleet.robotics.drone.7" }] }

/-- A battery reading does not touch the broken reference, and is refused. -/
theorem poison_held_battery : decodes plainCodec.parse strayFollower = false ∧
      ∀ attempts, (Submission.merge [] batteryArrival).perform plainCodec none (fun _ => true)
        (some strayFollower) attempts = (some strayFollower, 0) := by
  have hpoison : decodes plainCodec.parse strayFollower = false := by decide +kernel
  refine ⟨hpoison, (poison_held_iff hpoison).2 ?_⟩
  intro _ existing hexisting hsupersedes
  obtain rfl : strayFollower = existing := Option.some.inj hexisting
  have hstray := hsupersedes.resident strayLeader (by decide +kernel)
    (by decide +kernel)
  revert hstray
  decide +kernel

/-- **A merge over poison.** The arrival carries the subject and predicate of the
broken reference: the reference is dropped, the candidate passes the gate, and the
write is committed. -/
theorem merge_commits_over_poison : decodes plainCodec.parse strayFollower = false ∧
      ((Submission.merge [] leaderArrival).perform plainCodec none (fun _ => true)
        (some strayFollower) [.attempt (1, 1) .ok]).2 = 1 := by
  decide +kernel

end SemStreams.GraphIngest
