import SemStreams.Lifecycle.Manager
/-!
# Lifecycle — what the requests leave of phase and records

What a request writes is told apart by predicate: the phase, the records, and
facts under other predicates. `Registration.Separate` says that these do not
overlap. A state is tracked if its phase triples say one phase and its record
triples are a window that ends in it; a birth makes such a state, and transitions
and updates lead from one to the next.
-/

namespace SemStreams.Lifecycle

open SemStreams.Graph GraphIngest KeyedLog List Option

/-! ## Phases, records and the rest -/

section Separate

variable (reg : Registration)

def phasesOf (triples : List Triple) : List Triple :=
  triples.filter fun t => t.predicate = reg.workflow.phasePredicate

def recordsOf (triples : List Triple) : List Triple :=
  triples.filter fun t => isTransitionRecordPredicate t.predicate

/-- Neither the phase predicate nor one of the records. -/
def Registration.Apart (predicate : String) : Prop :=
  predicate ≠ reg.workflow.phasePredicate ∧ isTransitionRecordPredicate predicate = false

/-- **Predicates are used for one purpose.** Audit summary and fields keep off the
phase predicate and the records; the phase field may be mapped to the phase
predicate. -/
structure Registration.Separate : Prop where
  phase : isTransitionRecordPredicate reg.workflow.phasePredicate = false
  audit : ∀ p ∈ [reg.workflow.audit.source, reg.workflow.audit.time, reg.workflow.audit.fromPhase,
    reg.workflow.audit.note], p ≠ "" → reg.Apart p
  fields : ∀ f ∈ reg.fieldsByPredicate, f.isPhase = false →
    (f.readOnly = false ∨ f.operatorWritable = true) → reg.Apart f.predicate
  phaseField : ∀ f ∈ reg.fieldsByPredicate, f.isPhase = true →
    isTransitionRecordPredicate f.predicate = false

variable {reg} {formats : Formats} {entityID : String} {stamps : ℕ → ℕ}
  {facts : List (String × Object)} {fact : String × Object}

theorem mem_stampFacts (h : t ∈ stampFacts entityID stamps facts) :
    ∃ fact ∈ facts, t.subject = entityID ∧ t.predicate = fact.1 ∧ t.object = fact.2 := by
  obtain ⟨i, hi, rfl⟩ := mem_mapIdx.1 h
  exact ⟨facts[i], getElem_mem hi, rfl, rfl, rfl⟩

theorem filter_stampFacts {p : String → Bool} (h : ∀ fact ∈ facts, p fact.1 = false) :
    (stampFacts entityID stamps facts).filter (fun t => p t.predicate) = [] := by
  rw [filter_eq_nil_iff]
  intro t ht hp
  obtain ⟨fact, hfact, -, heq, -⟩ := mem_stampFacts ht
  rw [heq, h fact hfact] at hp
  exact Bool.noConfusion hp

theorem phasesOf_stampFacts_eq_nil : phasesOf reg (stampFacts entityID stamps facts) = [] ↔
      ∀ fact ∈ facts, fact.1 ≠ reg.workflow.phasePredicate := by
  constructor
  · intro h fact hfact heq
    obtain ⟨i, hi, rfl⟩ := getElem_of_mem hfact
    have ht : triple entityID facts[i].1 facts[i].2 (stamps (i + 1)) ∈
        stampFacts entityID stamps facts := mem_mapIdx.2 ⟨i, hi, rfl⟩
    exact filter_eq_nil_iff.1 h _ ht (decide_eq_true heq)
  · intro h
    exact filter_stampFacts (p := fun q => q = reg.workflow.phasePredicate) fun fact hfact => by
      simpa using h fact hfact

theorem phasesOf_stampFacts (h : ∀ fact ∈ facts, reg.Apart fact.1) :
    phasesOf reg (stampFacts entityID stamps facts) = [] :=
  phasesOf_stampFacts_eq_nil.2 fun fact hfact => (h fact hfact).1

variable {source : String}

theorem mem_initialAudit (h : fact ∈ initialAudit formats reg source now) :
    fact.1 ∈ [reg.workflow.audit.source, reg.workflow.audit.time, reg.workflow.audit.fromPhase,
      reg.workflow.audit.note] ∧ fact.1 ≠ "" := by
  obtain ⟨hmem, hne⟩ := mem_filter.1 h
  refine ⟨?_, by simpa using hne⟩
  simp only [mem_cons, not_mem_nil, or_false] at hmem ⊢
  rcases hmem with rfl | rfl | rfl <;> simp

theorem mem_transitionAudit (h : fact ∈ transitionAudit formats reg currentPhase source note time) :
    fact.1 ∈ [reg.workflow.audit.source, reg.workflow.audit.time, reg.workflow.audit.fromPhase,
      reg.workflow.audit.note] ∧ fact.1 ≠ "" := by
  obtain ⟨hmem, hne⟩ := mem_filter.1 h
  refine ⟨?_, by simpa using hne⟩
  rcases mem_append.1 hmem with hmem | hmem
  · simp only [mem_cons, not_mem_nil, or_false] at hmem ⊢
    rcases hmem with rfl | rfl | rfl <;> simp
  · split at hmem
    · cases hmem
    · rw [mem_singleton.1 hmem]
      simp

theorem apart_initialAudit (hsep : reg.Separate) (h : fact ∈ initialAudit formats reg source now) :
    reg.Apart fact.1 :=
  hsep.audit fact.1 (mem_initialAudit h).1 (mem_initialAudit h).2

theorem mem_diffProjected (h : fact ∈ diffProjected formats reg entityID original mutated) :
    ∃ f ∈ reg.fieldsByPredicate, f.predicate = fact.1 ∧ f.isPhase = false ∧ f.readOnly = false := by
  obtain ⟨f, hf, hfact⟩ := mem_filterMap.1 h
  split at hfact
  · cases hfact
  next hflags =>
  rw [Bool.or_eq_true, not_or, Bool.not_eq_true, Bool.not_eq_true] at hflags
  dsimp only at hfact
  split at hfact
  · cases hfact
  · split at hfact <;> cases hfact
    exact ⟨f, hf, rfl, hflags⟩

/-- The fields of a new participant keep off the records, and all but the phase
field off the phase. -/
theorem mem_projectStruct (hsep : reg.Separate) (h : fact ∈ projectStruct reg initial) :
    isTransitionRecordPredicate fact.1 = false ∧ initial.value fact.1 = some fact.2 ∧
      ∃ f ∈ reg.fieldsByPredicate, f.predicate = fact.1 ∧ f.isID = false ∧
        (f.isPhase = false → reg.Apart fact.1) := by
  obtain ⟨f, hf, hfact⟩ := mem_filterMap.1 h
  split at hfact
  · cases hfact
  next hflags =>
  obtain ⟨v, hv, rfl⟩ := map_eq_some_iff.1 hfact
  simp only [Bool.or_eq_true, Bool.and_eq_true, Bool.not_eq_true', not_or, not_and,
    Bool.not_eq_true, Bool.not_eq_false] at hflags
  have hapart : f.isPhase = false → reg.Apart f.predicate := by
    intro hphase
    refine hsep.fields f hf hphase (.inl ?_)
    cases hro : f.readOnly with
    | false => rfl
    | true => exact absurd (hflags.2 hro) (by simp [hphase])
  refine ⟨?_, hv, f, hf, rfl, hflags.1, hapart⟩
  cases hphase : f.isPhase with
  | true => exact hsep.phaseField f hf hphase
  | false => exact (hapart hphase).2

/-- What an operator patches are writable fields. -/
theorem forall_projectPatch {P : String → Prop}
    (hP : ∀ f ∈ reg.fieldsByPredicate, f.isPhase = false → f.operatorWritable → P f.predicate)
    (h : projectPatch reg patch = .ok (adds, removes)) :
    (∀ p ∈ removes, P p) ∧ ∀ fact ∈ adds, P fact.1 := by
  induction patch generalizing adds removes with
  | nil =>
    cases h
    exact ⟨by simp, by simp⟩
  | cons entry patch ih =>
    simp only [projectPatch] at h
    split at h
    · cases h
    next f hf =>
    obtain ⟨hwritable, h⟩ := ok_of_check h
    rw [Bool.not_eq_true', Bool.not_eq_false] at hwritable
    split at h
    · cases h
    next _ _ hrest =>
    obtain ⟨hremoves, hadds⟩ := ih hrest
    have hmem : f ∈ reg.fields := mem_of_find?_eq_some hf
    have hf : P f.predicate := by
      have hne := reg.writable f hmem hwritable
      refine hP f (mem_filter.2 ⟨hmem, by simpa using hne⟩) ?_ hwritable
      cases hphase : f.isPhase with
      | false => rfl
      | true =>
        have := (reg.roles f hmem (by simp [hphase])).2
        rw [hwritable] at this
        exact Bool.noConfusion this
    split at h <;> cases h
    · exact ⟨forall_mem_cons.2 ⟨hf, hremoves⟩, hadds⟩
    · exact ⟨hremoves, forall_mem_cons.2 ⟨hf, hadds⟩⟩

theorem apart_projectPatch (hsep : reg.Separate) (h : projectPatch reg patch = .ok (adds, removes)) :
    (∀ p ∈ removes, reg.Apart p) ∧ ∀ fact ∈ adds, reg.Apart fact.1 :=
  forall_projectPatch (fun f hf hphase hwritable => hsep.fields f hf hphase (.inr hwritable)) h

end Separate

/-! ## What the requests write -/

section Deltas

variable {reg : Registration} {formats : Formats} {entityID : String}
  {records : List TransitionRecord}

theorem mem_uniqueStrings : p ∈ uniqueStrings values ↔ p ∈ values := by
  refine ⟨fun h => (mem_of_mem_keepNew h).1, fun h => ?_⟩
  have hkey : id p ∈ [] ++ (keepNew id [] values).map id := key_mem_keepNew h
  rw [uniqueStrings]
  simpa using hkey

theorem mem_predicatesOf :
    p ∈ predicatesOf triples ↔ ∃ t ∈ triples, t.predicate = p := by
  rw [predicatesOf, mem_uniqueStrings, List.mem_map]

theorem mem_recordTriples (h : t ∈ transitionRecordsToTriples formats.toTimeLayout entityID records) :
    isTransitionRecordPredicate t.predicate ∧ t.context ∈ records.map TransitionRecord.id := by
  obtain ⟨r, hr, ht⟩ := mem_flatMap.1 h
  obtain ⟨_, hfield, rfl⟩ := List.mem_map.1 ht
  exact ⟨isRecord_of_mem_recordFields hfield, List.mem_map_of_mem hr⟩

theorem recordsOf_records : recordsOf (transitionRecordsToTriples formats.toTimeLayout entityID records) =
    transitionRecordsToTriples formats.toTimeLayout entityID records :=
  filter_eq_self.2 fun _ ht => (mem_recordTriples ht).1

theorem phasesOf_records (hsep : reg.Separate) :
    phasesOf reg (transitionRecordsToTriples formats.toTimeLayout entityID records) = [] := by
  refine filter_eq_nil_iff.2 fun t ht heq => ?_
  have hrecord := (mem_recordTriples ht).1
  rw [of_decide_eq_true heq, hsep.phase] at hrecord
  exact Bool.noConfusion hrecord

def phaseTriple (reg : Registration) (entityID phase : String) (clock : Clock) : Triple :=
  triple entityID reg.workflow.phasePredicate (.text phase) (clock.stamps 0)

variable {facts : List (String × Object)}

theorem phasesOf_delta (hsep : reg.Separate) : phasesOf reg (phaseTriple reg entityID phase clock ::
      (transitionRecordsToTriples formats.toTimeLayout entityID records ++
        stampFacts entityID clock.stamps facts)) =
      phaseTriple reg entityID phase clock :: phasesOf reg (stampFacts entityID clock.stamps facts) := by
  have hrecords : phasesOf reg (transitionRecordsToTriples formats.toTimeLayout entityID records) =
      [] := phasesOf_records hsep
  unfold phasesOf at hrecords ⊢
  rw [filter_cons_of_pos (by simp [phaseTriple, triple]), filter_append, hrecords, nil_append]

theorem recordsOf_delta (hsep : reg.Separate)
    (hfacts : ∀ fact ∈ facts, isTransitionRecordPredicate fact.1 = false) :
    recordsOf (phaseTriple reg entityID phase clock ::
      (transitionRecordsToTriples formats.toTimeLayout entityID records ++
        stampFacts entityID clock.stamps facts)) =
      transitionRecordsToTriples formats.toTimeLayout entityID records := by
  have hrecords := @recordsOf_records formats entityID records
  have hrest : recordsOf (stampFacts entityID clock.stamps facts) = [] := by
    exact filter_stampFacts hfacts
  unfold recordsOf at hrecords hrest ⊢
  rw [filter_cons_of_neg (by simp [phaseTriple, triple, hsep.phase]), filter_append,
    hrecords, hrest, append_nil]

/-- The triples of a kept window are told apart by predicate and time, so none is
dropped as a duplicate. -/
theorem dedupe_records (hkept : Kept records) :
    dedupeReconcileTriples (transitionRecordsToTriples formats.toTimeLayout entityID records) =
      transitionRecordsToTriples formats.toTimeLayout entityID records := by
  refine keepNew_of_nodup ?_ (by simp)
  rw [transitionRecordsToTriples, map_flatMap, nodup_flatMap]
  constructor
  · intro r _
    have hpredicates := nodup_recordFields formats.toTimeLayout r
    rw [recordTriples, List.map_map]
    refine pairwise_map.2 ((pairwise_map.1 hpredicates).imp fun hne heq => hne ?_)
    exact predicate_of_reconcileKey heq
  · refine hkept.ordered.imp fun {r r'} hlt => ?_
    intro _ hr hr'
    obtain ⟨t, ht, rfl⟩ := List.mem_map.1 hr
    obtain ⟨_, ht', heq⟩ := List.mem_map.1 hr'
    obtain ⟨_, -, rfl⟩ := List.mem_map.1 ht
    obtain ⟨_, -, rfl⟩ := List.mem_map.1 ht'
    have htime : r'.event.time = r.event.time := congrArg (fun k => k.2.2.1) heq
    omega

variable {delta : List Triple}

theorem phasesOf_dedupe :
    phasesOf reg (dedupeReconcileTriples delta) = dedupeReconcileTriples (phasesOf reg delta) :=
  filter_dedupeReconcileTriples (p := fun q => q = reg.workflow.phasePredicate)

/-- A reconcile that selects the phase predicate writes the phases of its request. -/
theorem phasesOf_reconciled (h : reg.workflow.phasePredicate ∈ predicates) :
    phasesOf reg (reconcileSelectedPredicates cur delta predicates) = phasesOf reg delta :=
  filter_reconcile_of_selected (p := fun q => q = reg.workflow.phasePredicate) fun _ hq =>
    of_decide_eq_true hq ▸ h

theorem recordsOf_reconciled (h : ∀ q, isTransitionRecordPredicate q → q ∈ predicates) :
    recordsOf (reconcileSelectedPredicates cur (dedupeReconcileTriples delta) predicates) =
      dedupeReconcileTriples (recordsOf delta) :=
  (filter_reconcile_of_selected (p := isTransitionRecordPredicate) h).trans
    filter_dedupeReconcileTriples

end Deltas

/-! ## States as the manager leaves them -/

variable (formats : Formats) (reg : Registration) (entityID : String)

/-- The phase triples say one phase, and the record triples are a kept, linked
window that ends in it. -/
structure Tracked (triples : List Triple) (phase : String) (records : List TransitionRecord) :
    Prop where
  carries : phasesOf reg triples ≠ []
  phases : ∀ t ∈ phasesOf reg triples, t.subject = entityID ∧ t.object = .text phase
  encoded : recordsOf triples = transitionRecordsToTriples formats.toTimeLayout entityID records
  kept : Kept records
  linked : Linked records
  ends : ∃ last, records.getLast? = some last ∧ last.event.toPhase = phase

variable {formats reg entityID} {triples cur : List Triple} {phase newPhase : String}
  {records : List TransitionRecord}

theorem Tracked.filter_own (h : Tracked formats reg entityID triples phase records) :
    triples.filter (ownTriple entityID reg.workflow.phasePredicate) = phasesOf reg triples := by
  refine filter_congr fun t ht => ?_
  by_cases hp : t.predicate = reg.workflow.phasePredicate
  · have hown := (h.phases t (mem_filter.2 ⟨ht, by simpa using hp⟩)).1
    simp [ownTriple, hp, hown]
  · simp [ownTriple, hp]

theorem Tracked.hasTriple (h : Tracked formats reg entityID triples phase records) :
    hasTriple triples entityID reg.workflow.phasePredicate := by
  obtain ⟨t, ht⟩ := exists_mem_of_ne_nil _ h.carries
  rw [← h.filter_own] at ht
  obtain ⟨hmem, hown⟩ := mem_filter.1 ht
  exact List.any_eq_true.2 ⟨t, hmem, hown⟩

/-- Whichever phase triple is read, it says the phase. -/
theorem Tracked.scalar (h : Tracked formats reg entityID triples phase records) :
    extractTripleScalar formats triples entityID reg.workflow.phasePredicate = phase := by
  unfold extractTripleScalar
  rw [h.filter_own]
  cases hlast : (phasesOf reg triples).getLast? with
  | none => exact absurd (List.getLast?_eq_none_iff.1 hlast) h.carries
  | some t =>
    dsimp only
    rw [(h.phases t (mem_of_getLast? hlast)).2]
    rfl

theorem Tracked.decode (h : Tracked formats reg entityID triples phase records) :
    decodeTransitionRecords formats.toTimeLayout entityID triples = .ok records :=
  decode_encode h.kept h.encoded

/-- A transition starts from the phase and the records there are. -/
theorem Tracked.source (h : Tracked formats reg entityID triples phase records)
    (hs : transitionSource formats reg entityID newPhase triples = .ok (currentPhase, rs)) :
    currentPhase = phase ∧ rs = records ∧
      reg.workflow.transitions.isValidTransition phase newPhase := by
  unfold transitionSource at hs
  rw [h.scalar, h.decode] at hs
  obtain ⟨-, hs⟩ := ok_of_check hs
  obtain ⟨-, hs⟩ := ok_of_check hs
  obtain ⟨hedge, hs⟩ := ok_of_check hs
  dsimp only at hs
  split at hs <;> cases hs
  exact ⟨rfl, rfl, by simpa using hedge⟩

/-! ### A birth -/

def birthRecord (initial : Participant) (byOperator : Bool) (clock : Clock) : TransitionRecord :=
  ⟨clock.uuid, "", initial.phase, clock.now, createSource byOperator, "created"⟩

variable {initial : Participant} {byOperator : Bool} {clock : Clock}

theorem kept_birth (hdeclared : reg.workflow.transitions.declared initial.phase)
    (huuid : clock.uuid ≠ "") : Kept [birthRecord initial byOperator clock] where
  ids := by simp
  named := by simpa [birthRecord] using huuid
  targets := by
    simpa [birthRecord] using Transitions.ne_empty_of_declared reg.table hdeclared
  triggers := by cases byOperator <;> simp [birthRecord, createSource, isTransitionSource]
  ordered := pairwise_singleton _ _
  bounded := by simp [transitionHistoryLimit]

theorem recordsOf_buildInitialTriples (hsep : reg.Separate) :
    recordsOf (buildInitialTriples formats reg entityID initial (createSource byOperator) clock) =
      transitionRecordsToTriples formats.toTimeLayout entityID
        [birthRecord initial byOperator clock] := by
  refine recordsOf_delta hsep fun fact hfact => ?_
  rcases mem_append.1 hfact with h | h
  · exact (apart_initialAudit hsep h).2
  · exact (mem_projectStruct hsep h).1

theorem subject_of_mem_buildInitialTriples
    (h : t ∈ buildInitialTriples formats reg entityID initial source clock) :
    t.subject = entityID := by
  rcases mem_cons.1 h with rfl | h
  · rfl
  rcases mem_append.1 h with h | h
  · obtain ⟨r, -, ht⟩ := mem_flatMap.1 h
    obtain ⟨_, -, rfl⟩ := List.mem_map.1 ht
    rfl
  · obtain ⟨_, -, hsubject, -⟩ := mem_stampFacts h
    exact hsubject

/-- **A birth is tracked** where every phase triple it writes says the phase. -/
theorem tracked_birth
    (hdeclared : reg.workflow.transitions.declared initial.phase) (huuid : clock.uuid ≠ "")
    (hne : phasesOf reg triples ≠ [])
    (hphases : ∀ t ∈ phasesOf reg triples, t.object = .text initial.phase ∧
      t ∈ buildInitialTriples formats reg entityID initial (createSource byOperator) clock)
    (hrecords : recordsOf triples = transitionRecordsToTriples formats.toTimeLayout entityID
      [birthRecord initial byOperator clock]) :
    Tracked formats reg entityID triples initial.phase [birthRecord initial byOperator clock] where
  carries := hne
  phases := fun t ht => ⟨subject_of_mem_buildInitialTriples (hphases t ht).2, (hphases t ht).1⟩
  encoded := hrecords
  kept := kept_birth hdeclared huuid
  linked := .singleton _
  ends := ⟨_, rfl, rfl⟩

/-- An attach selects the phase predicate and all the record predicates. -/
theorem mem_predicatesOf_buildInitialTriples
    (h : p = reg.workflow.phasePredicate ∨ isTransitionRecordPredicate p) :
    p ∈ predicatesOf
      (buildInitialTriples formats reg entityID initial (createSource byOperator) clock) := by
  rw [mem_predicatesOf]
  rcases h with rfl | h
  · exact ⟨_, mem_cons_self, rfl⟩
  -- the birth has a note, so all five fields are there
  have hfields : (recordFields formats.toTimeLayout (birthRecord initial byOperator clock)).map
      Prod.fst = transitionRecordPredicates := by
    simp [recordFields, birthRecord, transitionRecordPredicates]
  have hp : p ∈ transitionRecordPredicates := of_decide_eq_true h
  rw [← hfields] at hp
  obtain ⟨field, hfield, rfl⟩ := List.mem_map.1 hp
  refine ⟨recordTriple entityID (birthRecord initial byOperator clock) field, ?_, rfl⟩
  refine mem_cons_of_mem _ (mem_append_left _ ?_)
  exact mem_flatMap.2 ⟨_, mem_singleton_self _, List.mem_map_of_mem hfield⟩

def attached (formats : Formats) (reg : Registration) (entityID : String) (initial : Participant)
    (byOperator : Bool) (clock : Clock) (cur : List Triple) : List Triple :=
  let delta := buildInitialTriples formats reg entityID initial (createSource byOperator) clock
  reconcileSelectedPredicates cur (dedupeReconcileTriples delta) (predicatesOf delta)

theorem phasesOf_attached :
    phasesOf reg (attached formats reg entityID initial byOperator clock cur) =
      phasesOf reg (dedupeReconcileTriples
        (buildInitialTriples formats reg entityID initial (createSource byOperator) clock)) :=
  phasesOf_reconciled (mem_predicatesOf_buildInitialTriples (.inl rfl))

theorem recordsOf_attached (hsep : reg.Separate)
    (hdeclared : reg.workflow.transitions.declared initial.phase) (huuid : clock.uuid ≠ "") :
    recordsOf (attached formats reg entityID initial byOperator clock cur) =
      transitionRecordsToTriples formats.toTimeLayout entityID
        [birthRecord initial byOperator clock] := by
  unfold attached
  rw [recordsOf_reconciled fun q hq => mem_predicatesOf_buildInitialTriples (.inr hq),
    recordsOf_buildInitialTriples hsep, dedupe_records (kept_birth hdeclared huuid)]

/-! ### A transition -/

variable {source note : String} {mutated : Option (String → FieldValue)}

def transitioned (formats : Formats) (reg : Registration) (entityID newPhase source note : String)
    (mutated : Option (String → FieldValue)) (clock : Clock) (phase : String)
    (records : List TransitionRecord) (cur : List Triple) : List Triple :=
  let record := nextRecord phase newPhase source note records clock
  let delta := transitionDelta formats reg entityID newPhase record
    (appendTransitionRecord records record) mutated cur clock
  reconcileSelectedPredicates cur (dedupeReconcileTriples delta)
    (uniqueStrings (predicatesOf delta ++ transitionRecordPredicates))

theorem Tracked.fresh (h : Tracked formats reg entityID cur phase records)
    (huuid : ∀ t ∈ cur, t.context ≠ clock.uuid) :
    clock.uuid ∉ records.map TransitionRecord.id := by
  intro hmem
  obtain ⟨r, hr, hid⟩ := List.mem_map.1 hmem
  have ht : recordTriple entityID r (transitionPredicateTo, r.event.toPhase) ∈ recordsOf cur := by
    rw [h.encoded]
    exact mem_flatMap.2 ⟨r, hr, List.mem_map_of_mem (by simp [recordFields])⟩
  exact huuid _ (mem_filter.1 ht).1 hid

variable {record : TransitionRecord}

theorem apart_transitionFacts (hsep : reg.Separate)
    (h : fact ∈ transitionAudit formats reg record.event.fromPhase record.event.triggered
      record.event.note record.event.time ++ match mutated with
        | none => []
        | some fields => diffProjected formats reg entityID cur fields) :
    reg.Apart fact.1 := by
  rcases mem_append.1 h with h | h
  · exact hsep.audit fact.1 (mem_transitionAudit h).1 (mem_transitionAudit h).2
  · split at h
    · cases h
    · obtain ⟨f, hf, hpred, hphase, hro⟩ := mem_diffProjected h
      exact hpred ▸ hsep.fields f hf hphase (.inl hro)

theorem phasesOf_transitionDelta (hsep : reg.Separate) : phasesOf reg (dedupeReconcileTriples
      (transitionDelta formats reg entityID newPhase record records mutated cur clock)) =
        [phaseTriple reg entityID newPhase clock] := by
  have hdelta : phasesOf reg
      (transitionDelta formats reg entityID newPhase record records mutated cur clock) =
        [phaseTriple reg entityID newPhase clock] :=
    (phasesOf_delta hsep).trans
      (congrArg _ (phasesOf_stampFacts fun _ hfact => apart_transitionFacts hsep hfact))
  rw [phasesOf_dedupe, hdelta]
  rfl

theorem phasesOf_transitioned (hsep : reg.Separate) :
    phasesOf reg (transitioned formats reg entityID newPhase source note mutated clock phase records
      cur) = [phaseTriple reg entityID newPhase clock] := by
  refine (phasesOf_reconciled ?_).trans (phasesOf_transitionDelta hsep)
  rw [mem_uniqueStrings, mem_append, mem_predicatesOf]
  exact .inl ⟨_, mem_cons_self, rfl⟩

theorem recordsOf_transitioned (hsep : reg.Separate)
    (hkept : Kept (appendTransitionRecord records
      (nextRecord phase newPhase source note records clock))) :
    recordsOf (transitioned formats reg entityID newPhase source note mutated clock phase records
      cur) = transitionRecordsToTriples formats.toTimeLayout entityID
        (appendTransitionRecord records (nextRecord phase newPhase source note records clock)) := by
  have hdelta : ∀ record rs, recordsOf
      (transitionDelta formats reg entityID newPhase record rs mutated cur clock) =
        transitionRecordsToTriples formats.toTimeLayout entityID rs := fun record rs =>
    recordsOf_delta hsep fun _ hfact => (apart_transitionFacts hsep hfact).2
  unfold transitioned
  rw [recordsOf_reconciled, hdelta, dedupe_records hkept]
  intro q hq
  rw [mem_uniqueStrings, mem_append]
  exact .inr (of_decide_eq_true hq)

/-- **A transition replaces the phase and appends its record.** -/
theorem Tracked.transition (hsep : reg.Separate)
    (h : Tracked formats reg entityID cur phase records)
    (hsource : isTransitionSource source)
    (hdeclared : reg.workflow.transitions.declared newPhase)
    (hnamed : clock.uuid ≠ "") (huuid : ∀ t ∈ cur, t.context ≠ clock.uuid) :
    Tracked formats reg entityID
      (transitioned formats reg entityID newPhase source note mutated clock phase records cur)
      newPhase
      (appendTransitionRecord records (nextRecord phase newPhase source note records clock)) := by
  obtain ⟨_, hlast, hend⟩ := h.ends
  have hlater : ∀ r ∈ records, r.event.time <
      (nextRecord phase newPhase source note records clock).event.time :=
    fun _ hr => lt_nextTransitionTimestamp h.kept hr
  have hkept := h.kept.append (h.fresh huuid) hnamed
    (Transitions.ne_empty_of_declared reg.table hdeclared) hsource hlater
  refine ⟨by simp [phasesOf_transitioned hsep], ?_, recordsOf_transitioned hsep hkept, hkept,
    h.linked.append h.kept hlast hend.symm hlater,
    _, getLast?_appendTransitionRecord h.kept hlater, rfl⟩
  intro t ht
  rw [phasesOf_transitioned hsep, mem_singleton] at ht
  subst ht
  exact ⟨rfl, rfl⟩

/-! ### An update -/

/-- The state after an operator's update. -/
def updated (entityID : String) (clock : Clock) (adds : List (String × Object))
    (removes : List String) (cur : List Triple) : List Triple :=
  let desired := stampFacts entityID clock.stamps adds
  reconcileSelectedPredicates cur (dedupeReconcileTriples desired)
    (uniqueStrings (removes ++ predicatesOf desired))

variable {adds : List (String × Object)} {removes : List String}

theorem apart_of_updated (hremoves : ∀ p ∈ removes, reg.Apart p)
    (hadds : ∀ fact ∈ adds, reg.Apart fact.1)
    (hq : q ∈ uniqueStrings (removes ++ predicatesOf (stampFacts entityID clock.stamps adds))) :
    reg.Apart q := by
  rw [mem_uniqueStrings, mem_append, mem_predicatesOf] at hq
  rcases hq with hq | ⟨t, ht, rfl⟩
  · exact hremoves q hq
  · obtain ⟨fact, hfact, -, heq, -⟩ := mem_stampFacts ht
    exact heq ▸ hadds fact hfact

theorem mem_selected_of_updated
    (ht : t ∈ dedupeReconcileTriples (stampFacts entityID clock.stamps adds)) :
    t.predicate ∈ uniqueStrings
      (removes ++ predicatesOf (stampFacts entityID clock.stamps adds)) := by
  rw [mem_uniqueStrings, mem_append, mem_predicatesOf]
  exact .inr ⟨t, (mem_of_mem_keepNew ht).1, rfl⟩

theorem phasesOf_updated (hremoves : ∀ p ∈ removes, reg.Apart p)
    (hadds : ∀ fact ∈ adds, reg.Apart fact.1) :
    phasesOf reg (updated entityID clock adds removes cur) = phasesOf reg cur :=
  filter_reconcile_of_unselected (p := fun q => q = reg.workflow.phasePredicate)
    (fun _ hq hmem => (apart_of_updated hremoves hadds hmem).1 (of_decide_eq_true hq))
    fun _ => mem_selected_of_updated

theorem recordsOf_updated (hremoves : ∀ p ∈ removes, reg.Apart p)
    (hadds : ∀ fact ∈ adds, reg.Apart fact.1) :
    recordsOf (updated entityID clock adds removes cur) = recordsOf cur :=
  filter_reconcile_of_unselected (p := isTransitionRecordPredicate)
    (fun _ hq hmem => Bool.noConfusion (hq.symm.trans (apart_of_updated hremoves hadds hmem).2))
    fun _ => mem_selected_of_updated

/-- **An update leaves phase and records.** -/
theorem Tracked.update (h : Tracked formats reg entityID cur phase records)
    (hremoves : ∀ p ∈ removes, reg.Apart p) (hadds : ∀ fact ∈ adds, reg.Apart fact.1) :
    Tracked formats reg entityID (updated entityID clock adds removes cur) phase records where
  carries := by rw [phasesOf_updated hremoves hadds]; exact h.carries
  phases := by rw [phasesOf_updated hremoves hadds]; exact h.phases
  encoded := by rw [recordsOf_updated hremoves hadds]; exact h.encoded
  kept := h.kept
  linked := h.linked
  ends := h.ends

end SemStreams.Lifecycle
