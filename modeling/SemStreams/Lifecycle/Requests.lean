import SemStreams.Lifecycle.Tracked
/-!
# Lifecycle — requests under way

The manager computes a request from what it read, and the authority applies it
only while that is still current. `Planned` is how a request came about, and
`Commit` what an applied one makes of the state it was computed from. A create
writes the phase itself, and once more where the participant has a phase field
set that is mapped to the phase predicate; here it has none (`PhaseUnset`).
-/

namespace SemStreams.Lifecycle

open SemStreams.Graph GraphIngest KeyedLog List

/-! ## Requests under way -/

variable (formats : Formats) (reg : Registration) (entityID : String)

/-- The participant leaves unset what a create would project onto the phase
predicate. -/
def Registration.PhaseUnset (initial : Participant) : Prop :=
  ∀ f ∈ reg.fieldsByPredicate, f.isPhase = true → f.isID = false →
    f.predicate = reg.workflow.phasePredicate → initial.value f.predicate = none

def Op.PhaseUnset : Op → Prop
  | .create initial _ => reg.PhaseUnset initial
  | _ => True

/-- **How a request comes from what was read**: it is computed with a clock whose id is new
there, or it deletes. -/
inductive Planned (seen : Snapshot (List Triple)) (request : Request) : Prop
  | computed {op : Op} {clock : Clock} (hunset : op.PhaseUnset reg) (huuid : clock.uuid ≠ "")
      (hcontexts : ∀ cur r, seen = some (cur, r) → ∀ t ∈ cur, t.context ≠ clock.uuid)
      (h : attempt formats reg entityID op seen clock = .ok (.request request))
  | delete {r : ℕ} (h : request = .delete r)

variable {formats reg entityID} {seen : Snapshot (List Triple)} {clock : Clock} {request : Request}
  {initial : Participant} {byOperator : Bool}

theorem request_of_attemptCreate
    (h : attemptCreate formats reg entityID initial byOperator seen clock = .ok (.request request)) :
    reg.workflow.transitions.declared initial.phase ∧
      let triples := buildInitialTriples formats reg entityID initial (createSource byOperator) clock
      (seen = none ∧ request = .create triples) ∨
        ∃ cur r, seen = some (cur, r) ∧
          hasTriple cur entityID reg.workflow.phasePredicate = false ∧
          request = .reconcile r (predicatesOf triples) triples := by
  obtain ⟨-, h⟩ := ok_of_check h
  obtain ⟨hdeclared, h⟩ := ok_of_check h
  refine ⟨by simpa using hdeclared, ?_⟩
  split at h
  · cases h
    exact .inl ⟨rfl, rfl⟩
  · obtain ⟨hnew, h⟩ := ok_of_check h
    cases h
    exact .inr ⟨_, _, rfl, by simpa using hnew, rfl⟩

theorem request_of_attemptTransition
    (h : attemptTransition formats reg entityID newPhase source note mutated seen clock =
      .ok (.request request)) :
    isTransitionSource source ∧ reg.workflow.transitions.declared newPhase ∧
      ∃ cur r phase records, seen = some (cur, r) ∧
        transitionSource formats reg entityID newPhase cur = .ok (phase, records) ∧
        let record := nextRecord phase newPhase source note records clock
        let delta := transitionDelta formats reg entityID newPhase record
          (appendTransitionRecord records record) mutated cur clock
        request = .reconcile r
          (uniqueStrings (predicatesOf delta ++ transitionRecordPredicates)) delta := by
  obtain ⟨hsource, h⟩ := ok_of_check h
  obtain ⟨hdeclared, h⟩ := ok_of_check h
  refine ⟨by simpa using hsource, by simpa using hdeclared, ?_⟩
  cases seen with
  | none => cases h
  | some read =>
    obtain ⟨cur, r⟩ := read
    dsimp only at h
    split at h
    · cases h
    · next phase records hfrom =>
      split at h <;> cases h
      exact ⟨cur, r, phase, records, rfl, hfrom, rfl⟩

theorem request_of_attemptUpdate
    (h : attemptUpdate reg entityID patch seen clock = .ok (.request request)) :
    ∃ adds removes cur r, projectPatch reg patch = .ok (adds, removes) ∧ seen = some (cur, r) ∧
      hasTriple cur entityID reg.workflow.phasePredicate ∧
      request = .reconcile r
        (uniqueStrings (removes ++ predicatesOf (stampFacts entityID clock.stamps adds)))
        (stampFacts entityID clock.stamps adds) := by
  unfold attemptUpdate at h
  split at h
  · cases h
  split at h
  · cases h
  next adds removes hpatch =>
  split at h
  · cases h
  next cur r =>
  obtain ⟨hcarries, h⟩ := ok_of_check h
  cases h
  exact ⟨adds, removes, cur, r, hpatch, rfl, by simpa using hcarries, rfl⟩

/-! ### What is committed -/

variable (formats reg entityID)

/-- **What a committed state takes over from the one before.** A birth comes with
its own phase triple and record; a transition and an update go on from a tracked
state. -/
inductive Commit (old : Option (List Triple)) (new : List Triple) : Prop
  | birth {phase : String} {records : List TransitionRecord}
      (hnew : ∀ cur, old = some cur → hasTriple cur entityID reg.workflow.phasePredicate = false)
      (hone : (phasesOf reg new).length = 1)
      (htracked : Tracked formats reg entityID new phase records)
  | transition {cur : List Triple} (newPhase : String) (hold : old = some cur)
      (hcarries : hasTriple cur entityID reg.workflow.phasePredicate = true)
      (hone : (phasesOf reg new).length = 1)
      (htracked : ∀ phase records, Tracked formats reg entityID cur phase records →
        reg.workflow.transitions.isValidTransition phase newPhase = true ∧
          ∃ records', Tracked formats reg entityID new newPhase records')
  | update {cur : List Triple} (hold : old = some cur)
      (hcarries : hasTriple cur entityID reg.workflow.phasePredicate = true)
      (hphases : phasesOf reg new = phasesOf reg cur)
      (htracked : ∀ phase records, Tracked formats reg entityID cur phase records →
        Tracked formats reg entityID new phase records)

variable {formats reg entityID} {cur : List Triple}

theorem hasTriple_of_transitionSource
    (h : transitionSource formats reg entityID newPhase cur = .ok (phase, records)) :
    hasTriple cur entityID reg.workflow.phasePredicate := by
  obtain ⟨hne, -⟩ := ok_of_check h
  unfold extractTripleScalar at hne
  split at hne
  · exact absurd rfl hne
  · next t hlast =>
    obtain ⟨hmem, hown⟩ := mem_filter.1 (mem_of_getLast? hlast)
    exact List.any_eq_true.2 ⟨t, hmem, hown⟩

/-- Where the phase field is unset, a create writes the phase once. -/
theorem phasesOf_buildInitialTriples (hsep : reg.Separate) (hunset : reg.PhaseUnset initial) :
    phasesOf reg
      (buildInitialTriples formats reg entityID initial (createSource byOperator) clock) =
        [phaseTriple reg entityID initial.phase clock] := by
  refine (phasesOf_delta hsep).trans (congrArg _ (phasesOf_stampFacts_eq_nil.2 fun fact hfact => ?_))
  rcases mem_append.1 hfact with hfact | hfact
  · exact (apart_initialAudit hsep hfact).1
  · obtain ⟨-, hvalue, f, hf, hfield, hid, hapart⟩ := mem_projectStruct hsep hfact
    cases hphase : f.isPhase with
    | false => exact (hapart hphase).1
    | true =>
      intro heq
      have hnone := hunset f hf hphase hid (hfield.trans heq)
      rw [hfield, hvalue] at hnone
      cases hnone

/-- A birth that commits `new` with its phase triple. -/
theorem commit_birth (hdeclared : reg.workflow.transitions.declared initial.phase)
    (huuid : clock.uuid ≠ "")
    (hnew : ∀ cur, old = some cur → hasTriple cur entityID reg.workflow.phasePredicate = false)
    (hphases : phasesOf reg new = [phaseTriple reg entityID initial.phase clock])
    (hrecords : recordsOf new =
      transitionRecordsToTriples formats.toTimeLayout entityID [birthRecord initial byOperator clock]) :
    Commit formats reg entityID old new := by
  refine .birth hnew (by rw [hphases]; rfl)
    (tracked_birth hdeclared huuid (by simp [hphases]) (fun t ht => ?_) hrecords)
  rw [hphases, mem_singleton] at ht
  exact ht ▸ ⟨rfl, mem_cons_self⟩

/-- A reconcile whose revision still holds is applied to what was read. -/
theorem applied_reconcile (hfresh : Fresh commits () (some (cur, r)))
    (h : applyRequest commits (.reconcile r predicates desired) = .applied commits') :
    commits' = commits ∨ (current commits () = some cur ∧ commits' =
      ((), some (reconcileSelectedPredicates cur (dedupeReconcileTriples desired) predicates)) ::
        commits) := by
  simp only [applyRequest] at h
  split at h
  · cases h
  next _ _ hsnap =>
  obtain ⟨hcur, rfl⟩ := snapshot_eq_some hsnap
  split at h
  · cases h
  next hrev =>
  have hseen := (hfresh cur r rfl).2 (not_not.1 hrev)
  rw [hcur] at hseen
  cases hseen
  split at h <;> cases h
  · exact .inl rfl
  · exact .inr ⟨hcur, rfl⟩

theorem applied_delete {r : ℕ} (h : applyRequest commits (.delete r) = .applied commits') :
    commits' = ((), none) :: commits := by
  simp only [applyRequest] at h
  split at h
  · cases h
  · split at h <;> cases h
    rfl

/-- **A request changes nothing, deletes the entity, or commits one of these.** -/
theorem commit_of_applied (hsep : reg.Separate)
    (hplanned : Planned formats reg entityID seen request) (hfresh : Fresh commits () seen)
    (h : applyRequest commits request = .applied commits') :
    commits' = commits ∨ commits' = ((), none) :: commits ∨
      ∃ new, commits' = ((), some new) :: commits ∧
        Commit formats reg entityID (current commits ()) new := by
  obtain @⟨op, clock, hunset, huuid, hcontexts, hrequest⟩ | ⟨rfl⟩ := hplanned
  case delete => exact .inr (.inl (applied_delete h))
  cases op with
  | create initial byOperator =>
    obtain ⟨hdeclared, ⟨rfl, rfl⟩ | ⟨cur, r, rfl, hnew, rfl⟩⟩ := request_of_attemptCreate hrequest
    · simp only [applyRequest] at h
      split at h
      · cases h
      next hnone =>
      cases h
      refine .inr (.inr ⟨_, rfl, commit_birth hdeclared huuid ?_
        (phasesOf_buildInitialTriples hsep hunset) (recordsOf_buildInitialTriples hsep)⟩)
      intro _ hcur
      rw [hcur] at hnone
      exact absurd rfl hnone
    · rcases applied_reconcile hfresh h with h | ⟨hcur, h⟩
      · exact .inl h
      refine .inr (.inr ⟨_, h, commit_birth hdeclared huuid ?_ ?_
        (recordsOf_attached hsep hdeclared huuid)⟩)
      · intro _ hcur'
        rw [hcur] at hcur'
        exact Option.some.inj hcur' ▸ hnew
      · refine phasesOf_attached.trans (phasesOf_dedupe.trans ?_)
        rw [phasesOf_buildInitialTriples hsep hunset]
        rfl
  | transition newPhase source note mutated reclaim =>
    obtain ⟨hsource, hdeclared, cur, r, _, _, rfl, hfrom, rfl⟩ :=
      request_of_attemptTransition hrequest
    rcases applied_reconcile hfresh h with h | ⟨hcur, h⟩
    · exact .inl h
    refine .inr (.inr ⟨_, h, .transition newPhase hcur (hasTriple_of_transitionSource hfrom)
      (congrArg List.length (phasesOf_transitioned hsep)) fun phase records htracked => ?_⟩)
    obtain ⟨rfl, rfl, hedge⟩ := htracked.source hfrom
    exact ⟨hedge, _, htracked.transition hsep hsource hdeclared huuid (hcontexts cur r rfl)⟩
  | update patch =>
    obtain ⟨_, _, cur, r, hpatch, rfl, hcarries, rfl⟩ := request_of_attemptUpdate hrequest
    obtain ⟨hremoves, hadds⟩ := apart_projectPatch hsep hpatch
    rcases applied_reconcile hfresh h with h | ⟨hcur, h⟩
    · exact .inl h
    exact .inr (.inr ⟨_, h, .update hcur hcarries (phasesOf_updated hremoves hadds)
      fun phase records htracked => htracked.update hremoves hadds⟩)
  | complete =>
    simp only [attempt] at hrequest
    split at hrequest
    · cases hrequest
    · split at hrequest <;> cases hrequest
  | fail reason =>
    obtain ⟨-, hrequest⟩ := ok_of_check hrequest
    obtain ⟨-, ⟨⟩⟩ := ok_of_check hrequest
  | despawn =>
    obtain ⟨-, hrequest⟩ := ok_of_check hrequest
    split at hrequest <;> cases hrequest
    exact .inr (.inl (applied_delete h))
  | despawnWith source note =>
    obtain ⟨-, hrequest⟩ := ok_of_check hrequest
    split at hrequest
    · cases hrequest
    · split at hrequest <;> cases hrequest
      exact .inr (.inl (applied_delete h))

end SemStreams.Lifecycle
