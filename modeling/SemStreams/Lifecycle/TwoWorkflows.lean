import SemStreams.Lifecycle.History
import Mathlib.Data.List.DropRight
/-!
# Lifecycle — two workflows on one entity

`Create` attaches a workflow to an entity that is there already and refuses only
one that carries the same workflow's phase. Each workflow has a phase predicate
of its own, but the transition records of all workflows stand under the same five
predicates, and a birth replaces whatever it finds there. So a second workflow
takes the first one's records away; its history is gone, and its transitions are
refused.

Where an entity is managed by one of the two workflows only, the other cannot
touch it.
-/

namespace SemStreams.Lifecycle

open SemStreams.Graph GraphIngest KeyedLog List Function Option TransitionRecord

/-! ## Calls under either workflow -/

/-- The entity, and what each workflow has performed on it. -/
structure Managed where
  commits : Commits
  performed : Bool → List TransitionEvent

/-- A call under one of the two workflows. -/
structure WorkflowCall where
  workflow : Bool
  op : Op
  clock : Clock

/-- `Create`, `Transition` and `UpdateFromOperator`. -/
def Op.keepsEntity : Op → Bool
  | .create .. | .transition _ _ _ _ false | .update _ => true
  | _ => false

variable (formats : Formats)

/-- The transition a call performs when it commits; a birth is one. -/
def performedBy (reg : Registration) (entityID : String) (op : Op) (seen : Snapshot (List Triple))
    (clock : Clock) : List TransitionEvent :=
  match op, seen with
  | .create initial byOperator, _ => [(birthRecord initial byOperator clock).event]
  | .transition newPhase source note _ _, some (triples, _) =>
    match transitionSource formats reg entityID newPhase triples with
    | .ok (phase, records) => [(nextRecord phase newPhase source note records clock).event]
    | .error _ => []
  | _, _ => []

variable (regs : Bool → Registration) (entityID : String)

/-- One call after the other: each reads, computes its request and has it
answered before the next. -/
def callStep (s : Managed) (c : WorkflowCall) : Option Managed :=
  let seen := snapshot s.commits ()
  if c.op.keepsEntity && c.clock.fresh s.commits then
    match attempt formats (regs c.workflow) entityID c.op seen c.clock with
    | .ok (.request request) =>
      match applyRequest s.commits request with
      | .applied commits => some ⟨commits, update s.performed c.workflow
          (s.performed c.workflow ++ performedBy formats (regs c.workflow) entityID c.op seen c.clock)⟩
      | _ => some s
    | _ => some s
  else none

/-- **A workflow that manages the entity is undisturbed.** Its history is the last
sixty-four of the transitions it performed, and every transition its table allows
from where it is goes through. -/
def Undisturbed (s : Managed) : Prop :=
  ∀ w, s.performed w ≠ [] →
    history formats (regs w) entityID (snapshot s.commits ()) =
        .ok ((s.performed w).rtake transitionHistoryLimit) ∧
      ∀ last newPhase source note mutated clock, (s.performed w).getLast? = some last →
        (regs w).workflow.transitions.isValidTransition last.toPhase newPhase = true →
        isTransitionSource source = true →
        ∃ request commits, attemptTransition formats (regs w) entityID newPhase source note mutated
            (snapshot s.commits ()) clock = .ok (.request request) ∧
          applyRequest s.commits request = .applied commits

/-! ## What a workflow leaves alone -/

/-- The predicates a workflow may write under. -/
def Registration.Uses (reg : Registration) (p : String) : Prop :=
  p = reg.workflow.phasePredicate ∨ isTransitionRecordPredicate p = true ∨
    (p ∈ [reg.workflow.audit.source, reg.workflow.audit.time, reg.workflow.audit.fromPhase,
      reg.workflow.audit.note] ∧ p ≠ "") ∨ ∃ f ∈ reg.fieldsByPredicate, f.predicate = p

/-- The phase field, where it is mapped to the phase predicate, says what
`Phase()` does. -/
def Registration.Honest (reg : Registration) (initial : Participant) : Prop :=
  ∀ f ∈ reg.fieldsByPredicate, f.isPhase = true → f.predicate = reg.workflow.phasePredicate →
    ∀ v, initial.value f.predicate = some v → v = .text initial.phase

variable {formats} {reg : Registration} {entityID} {p : String} {clock : Clock} {cur : List Triple}

theorem hasTriple_congr
    (h : triples.filter (fun t => t.predicate = p) = triples'.filter fun t => t.predicate = p) :
    hasTriple triples entityID p = hasTriple triples' entityID p := by
  have hfilter : ∀ ts : List Triple, hasTriple ts entityID p =
      (ts.filter fun t => t.predicate = p).any fun t => t.subject = "" || t.subject = entityID := by
    intro ts
    rw [List.any_filter]
    rfl
  rw [hfilter, hfilter, h]

theorem hasTriple_eq_false (h : ∀ t ∈ triples, t.predicate ≠ p) : hasTriple triples entityID p = false := by
  rw [hasTriple, List.any_eq_false]
  intro t ht
  simp [ownTriple, h t ht]

/-- **A reconcile leaves what it does not name.** -/
theorem hasTriple_reconcile (hp : p ∉ predicates)
    (hdesired : ∀ t ∈ desired, t.predicate ∈ predicates) :
    hasTriple (reconcileSelectedPredicates cur desired predicates) entityID p =
      hasTriple cur entityID p := by
  refine hasTriple_congr (filter_reconcile_of_unselected (p := fun q => q = p) ?_ hdesired)
  intro q hq
  rw [of_decide_eq_true hq]
  exact hp

variable {t : Triple} {records : List TransitionRecord} {source newPhase : String}

/-- What is written with a phase and its records uses what its facts use. -/
theorem uses_delta {facts : List (String × Object)} (hfacts : ∀ fact ∈ facts, reg.Uses fact.1)
    (h : t ∈ phaseTriple reg entityID newPhase clock ::
      (transitionRecordsToTriples formats.toTimeLayout entityID records ++
        stampFacts entityID clock.stamps facts)) : reg.Uses t.predicate := by
  rcases mem_cons.1 h with rfl | h
  · exact .inl rfl
  rcases mem_append.1 h with h | h
  · exact .inr (.inl (mem_recordTriples h).1)
  · obtain ⟨fact, hfact, -, heq, -⟩ := mem_stampFacts h
    exact heq ▸ hfacts fact hfact

theorem uses_buildInitialTriples
    (h : t ∈ buildInitialTriples formats reg entityID initial source clock) :
    reg.Uses t.predicate := by
  refine uses_delta (fun fact hfact => ?_) h
  rcases mem_append.1 hfact with hfact | hfact
  · exact .inr (.inr (.inl (mem_initialAudit hfact)))
  obtain ⟨f, hf, hpred⟩ := mem_filterMap.1 hfact
  obtain ⟨_, hpred⟩ := ite_none_left_eq_some.1 hpred
  obtain ⟨v, -, rfl⟩ := map_eq_some_iff.1 hpred
  exact .inr (.inr (.inr ⟨f, hf, rfl⟩))

theorem uses_transitionDelta
    (h : t ∈ transitionDelta formats reg entityID newPhase record records mutated cur clock) :
    reg.Uses t.predicate := by
  refine uses_delta (fun fact hfact => ?_) h
  rcases mem_append.1 hfact with hfact | hfact
  · exact .inr (.inr (.inl (mem_transitionAudit hfact)))
  cases mutated with
  | none => cases hfact
  | some fields =>
    obtain ⟨f, hf, hpred, -⟩ := mem_diffProjected hfact
    exact .inr (.inr (.inr ⟨f, hf, hpred⟩))

/-- The phases of a birth that says what it is. -/
theorem said_of_honest (hsep : reg.Separate) (hhonest : reg.Honest initial)
    (ht : t ∈ phasesOf reg (buildInitialTriples formats reg entityID initial source clock)) :
    t.object = .text initial.phase := by
  have hdelta : phasesOf reg (buildInitialTriples formats reg entityID initial source clock) =
      phaseTriple reg entityID initial.phase clock :: phasesOf reg (stampFacts entityID clock.stamps
        (initialAudit formats reg source clock.now ++ projectStruct reg initial)) :=
    phasesOf_delta hsep
  rw [hdelta] at ht
  rcases mem_cons.1 ht with rfl | ht
  · rfl
  obtain ⟨hmem, hphase⟩ := mem_filter.1 ht
  obtain ⟨fact, hfact, -, hpred, hobject⟩ := mem_stampFacts hmem
  have hphase : fact.1 = reg.workflow.phasePredicate := hpred ▸ of_decide_eq_true hphase
  rcases mem_append.1 hfact with hfact | hfact
  · exact absurd hphase (apart_initialAudit hsep hfact).1
  obtain ⟨-, hvalue, f, hf, hfield, -, hapart⟩ := mem_projectStruct hsep hfact
  cases hisPhase : f.isPhase with
  | false => exact absurd hphase (hapart hisPhase).1
  | true =>
    rw [hobject]
    refine hhonest f hf hisPhase (hfield.trans hphase) fact.2 ?_
    rw [hfield]
    exact hvalue

/-! ## What each call commits -/

variable {commits : Commits} {request : Request} {phase : String}

theorem Clock.fresh_iff : clock.fresh commits ↔
      clock.uuid ≠ "" ∧ ∀ cur, current commits () = some cur → ∀ t ∈ cur, t.context ≠ clock.uuid := by
  simp only [Clock.fresh, Bool.and_eq_true, decide_eq_true_eq, List.all_eq_true]
  cases current commits () <;> simp

variable {predicates : List String} {desired : List Triple}

theorem applyRequest_reconcile (hcur : current commits () = some cur) :
    applyRequest commits (.reconcile (lastRevision commits ()) predicates desired) =
      .applied (if selectedPredicatesEqual cur (dedupeReconcileTriples desired) predicates then commits
        else ((), some (reconcileSelectedPredicates cur (dedupeReconcileTriples desired) predicates)) ::
          commits) := by
  simp only [applyRequest, snapshot, hcur, map_some, ne_eq, not_true_eq_false, if_false]
  split <;> rfl

/-- **A request with a fresh record is committed**: the record is not there yet. -/
theorem applyRequest_fresh (hcur : current commits () = some cur)
    (hfresh : clock.fresh commits) (ht : t ∈ desired) (hcontext : t.context = clock.uuid) :
    applyRequest commits (.reconcile (lastRevision commits ()) predicates desired) =
      .applied (((), some (reconcileSelectedPredicates cur (dedupeReconcileTriples desired)
        predicates)) :: commits) := by
  rw [applyRequest_reconcile hcur, if_neg]
  intro heq
  have hkey : reconcileKey t ∈ [] ++ (dedupeReconcileTriples desired).map reconcileKey :=
    key_mem_keepNew ht
  obtain ⟨_, ht', htt'⟩ := List.mem_map.1 hkey
  obtain ⟨u, hu, hut'⟩ := exists_of_selectedPredicatesEqual heq ht'
  have hsame : u.context = t.context :=
    context_of_appendIdentityKey (congrArg Prod.fst (hut'.trans htt'))
  exact (Clock.fresh_iff.1 hfresh).2 cur hcur u hu (hsame.trans hcontext)

/-- The record a request adds is among its triples. -/
theorem exists_mem_recordTriples (formats : Formats) (entityID : String) (hr : r ∈ records) :
    ∃ t ∈ transitionRecordsToTriples formats.toTimeLayout entityID records, t.context = r.id := by
  refine ⟨recordTriple entityID r (transitionPredicateTo, r.event.toPhase), ?_, rfl⟩
  exact mem_flatMap.2 ⟨r, hr, List.mem_map_of_mem (by simp [recordFields])⟩

/-- **A birth commits** a state in which the workflow has one record, and leaves
what it does not use. -/
theorem commit_of_create (hsep : reg.Separate) {initial : Participant} {byOperator : Bool}
    (hhonest : reg.Honest initial) (hfresh : clock.fresh commits)
    (h : attemptCreate formats reg entityID initial byOperator (snapshot commits ()) clock =
      .ok (.request request)) :
    ∃ new, applyRequest commits request = .applied (((), some new) :: commits) ∧
      Tracked formats reg entityID new initial.phase [birthRecord initial byOperator clock] ∧
      (¬ reg.Uses p → (∀ cur, current commits () = some cur → hasTriple cur entityID p = false) →
        hasTriple new entityID p = false) := by
  have huuid := (Clock.fresh_iff.1 hfresh).1
  have hne : ∀ delta : List Triple, delta = dedupeReconcileTriples
        (buildInitialTriples formats reg entityID initial (createSource byOperator) clock) ∨
      delta = buildInitialTriples formats reg entityID initial (createSource byOperator) clock →
        phasesOf reg delta ≠ [] := by
    rintro _ (rfl | rfl)
    · rw [phasesOf_dedupe]
      have hdelta : phasesOf reg (buildInitialTriples formats reg entityID initial
          (createSource byOperator) clock) = phaseTriple reg entityID initial.phase clock :: _ :=
        phasesOf_delta hsep
      rw [hdelta]
      exact cons_ne_nil _ _
    · exact (phasesOf_delta hsep).symm ▸ cons_ne_nil _ _
  obtain ⟨hdeclared, ⟨hnone, rfl⟩ | ⟨cur, r, hsome, _, rfl⟩⟩ := request_of_attemptCreate h
  · refine ⟨_, ?_, tracked_birth hdeclared huuid (hne _ (.inr rfl)) ?_
      (recordsOf_buildInitialTriples hsep), fun hp _ => ?_⟩
    · simp [applyRequest, snapshot_eq_none hnone]
    · exact fun t ht => ⟨said_of_honest hsep hhonest ht, (mem_filter.1 ht).1⟩
    · exact hasTriple_eq_false fun t ht heq => hp (heq ▸ uses_buildInitialTriples ht)
  · obtain ⟨hcur, rfl⟩ := snapshot_eq_some hsome
    obtain ⟨t, ht, hcontext⟩ := exists_mem_recordTriples formats entityID
      (mem_singleton_self (birthRecord initial byOperator clock))
    refine ⟨attached formats reg entityID initial byOperator clock cur,
      applyRequest_fresh hcur hfresh (mem_cons_of_mem _ (mem_append_left _ ht)) hcontext,
      tracked_birth hdeclared huuid (phasesOf_attached ▸ hne _ (.inl rfl)) ?_
        (recordsOf_attached hsep hdeclared huuid), fun hp hold => ?_⟩
    · intro t ht
      rw [phasesOf_attached, phasesOf_dedupe] at ht
      have ht := (mem_of_mem_keepNew ht).1
      exact ⟨said_of_honest hsep hhonest ht, (mem_filter.1 ht).1⟩
    · refine (hasTriple_reconcile ?_ ?_).trans (hold cur hcur)
      · intro hmem
        obtain ⟨t, ht, rfl⟩ := mem_predicatesOf.1 hmem
        exact hp (uses_buildInitialTriples ht)
      · exact fun t ht => mem_predicatesOf.2 ⟨t, (mem_of_mem_keepNew ht).1, rfl⟩

/-- **A transition commits** the next record. -/
theorem commit_of_transition (hsep : reg.Separate) {newPhase source note : String}
    {mutated : Option (String → FieldValue)} (hcur : current commits () = some cur)
    (htracked : Tracked formats reg entityID cur phase records) (hfresh : clock.fresh commits)
    (h : attemptTransition formats reg entityID newPhase source note mutated (snapshot commits ())
      clock = .ok (.request request)) :
    ∃ new, applyRequest commits request = .applied (((), some new) :: commits) ∧
      transitionSource formats reg entityID newPhase cur = .ok (phase, records) ∧
      Tracked formats reg entityID new newPhase
        (appendTransitionRecord records (nextRecord phase newPhase source note records clock)) ∧
      (isTransitionRecordPredicate p = false → ¬ reg.Uses p →
        hasTriple new entityID p = hasTriple cur entityID p) := by
  obtain ⟨hsource, hdeclared, cur', r, phase', records', hsome, hfrom, rfl⟩ :=
    request_of_attemptTransition h
  obtain ⟨hcur', rfl⟩ := snapshot_eq_some hsome
  obtain rfl : cur' = cur := Option.some.inj (hcur'.symm.trans hcur)
  obtain ⟨rfl, rfl, -⟩ := htracked.source hfrom
  obtain ⟨huuid, hunused⟩ := Clock.fresh_iff.1 hfresh
  have hnext : Tracked formats reg entityID
      (transitioned formats reg entityID newPhase source note mutated clock phase' records' cur')
      newPhase _ := htracked.transition hsep hsource hdeclared huuid (hunused cur' hcur)
  refine ⟨_, ?_, hfrom, hnext, fun hrecord hp => hasTriple_reconcile ?_ ?_⟩
  · have hlast : (appendTransitionRecord records'
        (nextRecord phase' newPhase source note records' clock)).getLast? = some _ :=
      getLast?_appendTransitionRecord htracked.kept
        fun r hr => lt_nextTransitionTimestamp htracked.kept hr
    obtain ⟨t, ht, hcontext⟩ := exists_mem_recordTriples formats entityID
      (mem_of_getLast? hlast)
    exact applyRequest_fresh hcur hfresh (mem_cons_of_mem _ (mem_append_left _ ht)) hcontext
  · rw [mem_uniqueStrings, mem_append]
    rintro (hmem | hmem)
    · obtain ⟨t, ht, rfl⟩ := mem_predicatesOf.1 hmem
      exact hp (uses_transitionDelta ht)
    · exact Bool.noConfusion (hrecord.symm.trans (decide_eq_true hmem))
  · intro t ht
    rw [mem_uniqueStrings, mem_append]
    exact .inl (mem_predicatesOf.2 ⟨t, (mem_of_mem_keepNew ht).1, rfl⟩)

/-- **An update** leaves phase and records, whether it changes anything or not. -/
theorem commit_of_update (hsep : reg.Separate) {patch : List (String × Option Object)}
    (hcur : current commits () = some cur) (htracked : Tracked formats reg entityID cur phase records)
    (h : attemptUpdate reg entityID patch (snapshot commits ()) clock = .ok (.request request)) :
    ∃ commits' new, applyRequest commits request = .applied commits' ∧
      current commits' () = some new ∧ Tracked formats reg entityID new phase records ∧
      (¬ reg.Uses p → hasTriple new entityID p = hasTriple cur entityID p) := by
  obtain ⟨_, _, cur', r, hpatch, hsome, -, rfl⟩ := request_of_attemptUpdate h
  obtain ⟨hcur', rfl⟩ := snapshot_eq_some hsome
  obtain rfl : cur' = cur := Option.some.inj (hcur'.symm.trans hcur)
  obtain ⟨hremoves, hadds⟩ := apart_projectPatch hsep hpatch
  have huses := forall_projectPatch (P := reg.Uses)
    (fun f hf _ _ => .inr (.inr (.inr ⟨f, hf, rfl⟩))) hpatch
  rw [applyRequest_reconcile hcur]
  split
  · exact ⟨_, cur', rfl, hcur, htracked, fun _ => rfl⟩
  refine ⟨_, _, rfl, current_cons_self, htracked.update hremoves hadds, fun hp =>
    hasTriple_reconcile ?_ fun _ => mem_selected_of_updated⟩
  rw [mem_uniqueStrings, mem_append, mem_predicatesOf]
  rintro (hmem | ⟨t, ht, rfl⟩)
  · exact hp (huses.1 p hmem)
  · obtain ⟨fact, hfact, -, heq, -⟩ := mem_stampFacts ht
    exact hp (heq ▸ huses.2 fact hfact)

/-! ## One workflow manages the entity -/

/-- **Neither workflow uses the other's phase predicate**, and each its own for one
purpose. -/
structure Independent (regs : Bool → Registration) : Prop where
  separate : ∀ w, (regs w).Separate
  apart : ∀ w, ¬ (regs w).Uses (regs (!w)).workflow.phasePredicate

variable (formats) (entityID)

/-- A birth is refused, or the other workflow does not manage the entity and the
participant says its phase. -/
def Alone (s : Managed) (c : WorkflowCall) : Prop :=
  ∀ initial byOperator, c.op = .create initial byOperator →
    (∃ err, attempt formats (regs c.workflow) entityID c.op (snapshot s.commits ()) c.clock =
        .error err) ∨
      (s.performed (!c.workflow) = [] ∧ (regs c.workflow).Honest initial)

/-- **What every reachable state keeps.** At most one workflow manages the entity;
its state is tracked with the last of its transitions, and the other's phase is
absent. -/
structure Managed.Sound (s : Managed) : Prop where
  one : ∀ w, s.performed w ≠ [] → s.performed (!w) = []
  absent : ∀ w, s.performed w = [] → ∀ cur, current s.commits () = some cur →
    hasTriple cur entityID (regs w).workflow.phasePredicate = false
  tracked : ∀ w, s.performed w ≠ [] → ∃ cur phase records, current s.commits () = some cur ∧
    Tracked formats (regs w) entityID cur phase records ∧
    records.map event = (s.performed w).rtake transitionHistoryLimit

variable {formats regs entityID} {s : Managed} {w : Bool}

/-- The state after a call of the workflow that manages the entity. -/
theorem Managed.sound_of_tracked {commits : Commits} {performed : Bool → List TransitionEvent}
    (hcur : current commits () = some cur)
    (htracked : Tracked formats (regs w) entityID cur phase records)
    (hevents : records.map event = events.rtake transitionHistoryLimit)
    (hne : events ≠ []) (hother : performed (!w) = [])
    (habsent : hasTriple cur entityID (regs (!w)).workflow.phasePredicate = false) :
    Managed.Sound formats regs entityID ⟨commits, update performed w events⟩ where
  one := by
    intro v hv
    by_cases hvw : v = w
    · subst hvw
      simpa using hother
    · obtain rfl := Bool.eq_not_of_ne hvw
      exact absurd (by simpa using hother) hv
  absent := by
    intro v hv _ hcur'
    obtain rfl := Option.some.inj (hcur.symm.trans hcur')
    by_cases hvw : v = w
    · subst hvw
      exact absurd (by simpa using hv) hne
    · obtain rfl := Bool.eq_not_of_ne hvw
      exact habsent
  tracked := by
    intro v hv
    by_cases hvw : v = w
    · subst hvw
      exact ⟨cur, phase, records, hcur, htracked, by simpa using hevents⟩
    · obtain rfl := Bool.eq_not_of_ne hvw
      exact absurd (by simpa using hother) hv

/-- The last of the last and one more. -/
theorem rtake_append_rtake {α : Type*} (l : List α) (x : α) (n : ℕ) :
    (l.rtake (n + 1) ++ [x]).rtake (n + 1) = (l ++ [x]).rtake (n + 1) := by
  rw [rtake_concat_succ, rtake_concat_succ]
  congr 1
  simp only [List.rtake, length_drop, drop_drop]
  congr 1
  omega

theorem map_event_appendTransitionRecord (hkept : Kept records) {record : TransitionRecord}
    (hlater : ∀ r ∈ records, r.event.time < record.event.time)
    (hevents : records.map event = events.rtake transitionHistoryLimit) :
    (appendTransitionRecord records record).map event =
      (events ++ [record.event]).rtake transitionHistoryLimit := by
  have hlength : records.length = (records.map event).length := by simp
  rw [appendTransitionRecord_eq hkept hlater, map_drop, map_append, hlength, hevents]
  refine Eq.trans ?_ (rtake_append_rtake events record.event 63)
  simp only [List.rtake, length_append, transitionHistoryLimit, map_cons, map_nil, length_singleton]

/-- A workflow whose phase is there manages the entity. -/
theorem Managed.Sound.manages (hs : s.Sound formats regs entityID)
    (hcur : current s.commits () = some cur)
    (hcarries : hasTriple cur entityID (regs w).workflow.phasePredicate) :
    s.performed w ≠ [] := by
  intro hnone
  rw [hs.absent w hnone cur hcur] at hcarries
  exact Bool.noConfusion hcarries

theorem Managed.Sound.step (hregs : Independent regs) (hs : s.Sound formats regs entityID)
    (hc : Alone formats regs entityID s c) (h : callStep formats regs entityID s c = some s') :
    s'.Sound formats regs entityID := by
  obtain ⟨w, op, _⟩ := c
  simp only [callStep] at h
  split at h
  · next hguard =>
    rw [Bool.and_eq_true] at hguard
    obtain ⟨hop, hfresh⟩ := hguard
    split at h
    · next _ hattempt =>
      cases op with
      | create initial byOperator =>
        obtain ⟨_, herr⟩ | ⟨hother, hhonest⟩ := hc initial byOperator rfl
        · cases hattempt.symm.trans herr
        · obtain ⟨new, happ, htracked, hframe⟩ :=
            commit_of_create (hregs.separate w) hhonest hfresh hattempt
          rw [happ] at h
          cases h
          -- a birth is refused where the workflow manages the entity
          have hnew : s.performed w = [] := by
            by_contra hne
            obtain ⟨cur, phase, records, hcur, hold, -⟩ := hs.tracked w hne
            obtain ⟨-, ⟨hnone, -⟩ | ⟨cur', r, hsome, habsent, -⟩⟩ := request_of_attemptCreate hattempt
            · cases hcur.symm.trans (snapshot_eq_none hnone)
            · obtain rfl := Option.some.inj (hcur.symm.trans (snapshot_eq_some hsome).1)
              exact Bool.noConfusion (hold.hasTriple.symm.trans habsent)
          refine Managed.sound_of_tracked current_cons_self htracked ?_ (by simp [performedBy]) hother
            (hframe (hregs.apart w) (hs.absent (!w) hother))
          rw [hnew]
          rfl
      | transition newPhase source note mutated reclaim =>
        obtain ⟨-, -, cur, r, _, _, hsome, hfrom, -⟩ := request_of_attemptTransition hattempt
        obtain ⟨hcur, -⟩ := snapshot_eq_some hsome
        have hne := hs.manages hcur (hasTriple_of_transitionSource hfrom)
        obtain ⟨cur', phase, records, hcur', htracked, hevents⟩ := hs.tracked w hne
        obtain rfl := Option.some.inj (hcur.symm.trans hcur')
        obtain ⟨new, happ, hfrom', hnext, hframe⟩ :=
          commit_of_transition (hregs.separate w) hcur htracked hfresh hattempt
        rw [happ] at h
        cases h
        have hother := hs.one w hne
        refine Managed.sound_of_tracked current_cons_self hnext ?_ (by simp [hne]) hother ?_
        · simp only [performedBy, hsome, hfrom']
          exact map_event_appendTransitionRecord htracked.kept
            (fun r hr => lt_nextTransitionTimestamp htracked.kept hr) hevents
        · rw [hframe (hregs.separate (!w)).phase (hregs.apart w)]
          exact hs.absent (!w) hother cur hcur
      | update patch =>
        obtain ⟨_, _, cur, r, -, hsome, hcarries, -⟩ := request_of_attemptUpdate hattempt
        obtain ⟨hcur, -⟩ := snapshot_eq_some hsome
        have hne := hs.manages hcur hcarries
        obtain ⟨cur', phase, records, hcur', htracked, hevents⟩ := hs.tracked w hne
        obtain rfl := Option.some.inj (hcur.symm.trans hcur')
        obtain ⟨_, new, happ, hnew, hkept, hframe⟩ :=
          commit_of_update (hregs.separate w) hcur htracked hattempt
        rw [happ] at h
        cases h
        have hother := hs.one w hne
        refine Managed.sound_of_tracked hnew hkept ?_ (by simp [hne]) hother ?_
        · simpa [performedBy] using hevents
        · rw [hframe (hregs.apart w)]
          exact hs.absent (!w) hother cur hcur
      | _ => cases hop
    · cases h
      exact hs
  · cases h

theorem Tracked.history (h : Tracked formats reg entityID cur phase records) (r : ℕ) :
    history formats reg entityID (some (cur, r)) = .ok (records.map event) := by
  have hchain : validateTransitionRecordChain records phase = .ok () :=
    validateTransitionRecordChain_eq_ok.2 ⟨h.linked, h.ends⟩
  simp [Lifecycle.history, h.hasTriple, h.decode, h.scalar, hchain]

/-- **A tracked state takes every transition of its table.** -/
theorem Tracked.attemptTransition (h : Tracked formats reg entityID cur phase records)
    (hedge : reg.workflow.transitions.isValidTransition phase newPhase)
    (hsource : isTransitionSource source) (r : ℕ) :
    ∃ predicates desired, attemptTransition formats reg entityID newPhase source note mutated
      (some (cur, r)) clock = .ok (.request (.reconcile r predicates desired)) := by
  obtain ⟨hphase, hnew⟩ := Transitions.declared_of_isValidTransition reg.table hedge
  have hchain : validateTransitionRecordChain records phase = .ok () :=
    validateTransitionRecordChain_eq_ok.2 ⟨h.linked, h.ends⟩
  have hfrom : transitionSource formats reg entityID newPhase cur = .ok (phase, records) := by
    simp [transitionSource, h.scalar, h.decode, hchain, hedge,
      Transitions.ne_empty_of_declared reg.table hphase,
      Transitions.not_terminal_of_isValidTransition hedge]
  obtain ⟨_, hlast, hend⟩ := h.ends
  have hlater : ∀ r ∈ records, r.event.time <
      (nextRecord phase newPhase source note records clock).event.time :=
    fun _ hr => lt_nextTransitionTimestamp h.kept hr
  have hchain' : validateTransitionRecordChain (appendTransitionRecord records
      (nextRecord phase newPhase source note records clock)) newPhase = .ok () :=
    validateTransitionRecordChain_eq_ok.2 ⟨h.linked.append h.kept hlast hend.symm hlater, _,
      getLast?_appendTransitionRecord h.kept hlater, rfl⟩
  simp only [Lifecycle.attemptTransition, hsource, hnew, hfrom, hchain', Bool.not_true,
    Bool.false_eq_true, if_false]
  exact ⟨_, _, rfl⟩

theorem Managed.Sound.undisturbed (hs : s.Sound formats regs entityID) :
    Undisturbed formats regs entityID s := by
  intro w hne
  obtain ⟨cur, phase, records, hcur, htracked, hevents⟩ := hs.tracked w hne
  have hsnap : snapshot s.commits () = some (cur, lastRevision s.commits ()) := by
    rw [snapshot, hcur]
    rfl
  refine ⟨?_, ?_⟩
  · rw [hsnap, htracked.history, hevents]
  · intro last _ _ _ _ _ hlast hedge hsource
    -- the last transition performed is the last of the window
    have hphase : last.toPhase = phase := by
      obtain ⟨r, hr, hend⟩ := htracked.ends
      have hlength : 0 < (s.performed w).length := length_pos_of_ne_nil hne
      have hwindow : (records.map event).getLast? = some last := by
        rw [hevents, List.rtake, List.getLast?_drop, if_neg, hlast]
        rw [transitionHistoryLimit]
        omega
      rw [List.getLast?_map, hr] at hwindow
      cases hwindow
      exact hend
    obtain ⟨_, _, hrequest⟩ :=
      htracked.attemptTransition (hphase ▸ hedge) hsource (lastRevision s.commits ())
    rw [hsnap]
    exact ⟨_, _, hrequest, applyRequest_reconcile hcur⟩

/-- **A workflow that manages the entity alone is undisturbed.** In every run of
calls under either workflow in which no birth is committed on an entity that the
other one manages. -/
theorem undisturbed_of_alone (hregs : Independent regs) {commits : Commits} {es : List WorkflowCall}
    (hnew : ∀ w cur, current commits () = some cur →
      hasTriple cur entityID (regs w).workflow.phasePredicate = false)
    (hrun : run (callStep formats regs entityID) ⟨commits, fun _ => []⟩ es = some s)
    (halone : Along (callStep formats regs entityID) (Alone formats regs entityID)
      ⟨commits, fun _ => []⟩ es) : Undisturbed formats regs entityID s := by
  have hstart : Managed.Sound formats regs entityID ⟨commits, fun _ => []⟩ :=
    ⟨fun _ _ => rfl, fun w _ => hnew w, fun _ hne => absurd rfl hne⟩
  have hsound := run_invariant_along (fun _ _ _ hs hc h => Managed.Sound.step hregs hs hc h) hstart
    halone hrun
  exact hsound.undisturbed

/-! ## A mission and a survey -/

/-- A second workflow for the same entities. -/
def survey : Registration where
  workflow :=
    { name := "survey"
      entityIDPattern := "*.*.*.*.mission.*"
      transitions := ⟨[("queued", ["done"]), ("done", [])], by decide⟩
      phasePredicate := "survey.lifecycle.phase" }
  fields := []
  table := by decide
  roles := by decide
  writable := by decide
  jsonNames := by decide
  predicates := by decide

def missionAndSurvey (w : Bool) : Registration := if w then survey else mission

theorem missionAndSurvey_independent : Independent missionAndSurvey where
  separate := by
    intro w
    cases w with
    | false => exact mission_separate
    | true =>
      refine ⟨by decide, ?_, nofun, nofun⟩
      intro p hp hne
      exact absurd (by simpa [missionAndSurvey, survey] using hp) hne
  apart := by
    intro w
    cases w with
    | false =>
      rintro (h | h | ⟨h, -⟩ | ⟨f, hf, hpred⟩)
      iterate 3 · exact absurd h (by decide)
      · rw [mem_singleton.1 hf] at hpred
        exact absurd hpred (by decide)
    | true =>
      rintro (h | h | ⟨h, -⟩ | ⟨f, hf, -⟩)
      iterate 3 · exact absurd h (by decide)
      · cases hf

/-- The mission is created and takes off; calls under the survey are refused. -/
def missionCalls : List WorkflowCall :=
  [⟨false, .create setMission false, clockAt 10 "u1"⟩,
    ⟨true, .transition "done" "rule" "" none false, clockAt 11 "u2"⟩,
    ⟨false, .transition "flying" "rule" "go" none false, clockAt 12 "u3"⟩]

def untouched : Managed := ⟨[], fun _ => []⟩

theorem undisturbed_of_alone_mission :
    ∃ s, run (callStep decimalFormats missionAndSurvey missionID) untouched missionCalls = some s ∧
      s.performed false = [⟨"", "planning", 10, "framework", "created"⟩,
        ⟨"planning", "flying", 12, "rule", "go"⟩] ∧
      Undisturbed decimalFormats missionAndSurvey missionID s := by
  refine exists_end (P := fun s => s.performed false = [⟨"", "planning", 10, "framework", "created"⟩,
    ⟨"planning", "flying", 12, "rule", "go"⟩]) (by decide +kernel) fun s hrun hs => ?_
  refine ⟨hs, undisturbed_of_alone missionAndSurvey_independent
    (by simp [current]) hrun ⟨?_, fun _ _ => ⟨?_, fun _ _ => ⟨?_, fun _ _ => trivial⟩⟩⟩⟩
  · intro _ _ hop
    cases hop
    refine .inr ⟨rfl, ?_⟩
    intro f _ _ hpred v hv
    rw [hpred] at hv
    exact (Option.some.inj hv).symm
  · rintro _ _ ⟨⟩
  · rintro _ _ ⟨⟩

/-- **A second workflow disturbs the first.** The survey is attached to the
mission; then the mission's history fails, and so does a transition its table
allows. -/
theorem survey_disturbs_mission :
    ∃ s, run (callStep decimalFormats missionAndSurvey missionID) untouched
        [⟨false, .create setMission false, clockAt 10 "u1"⟩,
          ⟨true, .create ⟨"queued", fun _ => none⟩ false, clockAt 11 "u2"⟩] = some s ∧
      s.performed false = [⟨"", "planning", 10, "framework", "created"⟩] ∧
      history decimalFormats mission missionID (snapshot s.commits ()) =
        .error (.invalidRecord .phaseMismatch) ∧
      mission.workflow.transitions.isValidTransition "planning" "flying" = true ∧
      (∃ err, attemptTransition decimalFormats mission missionID "flying" "rule" "" none
        (snapshot s.commits ()) (clockAt 12 "u3") = .error err) ∧
      ¬ Undisturbed decimalFormats missionAndSurvey missionID s := by
  refine exists_end (P := fun s => s.performed false = [⟨"", "planning", 10, "framework", "created"⟩] ∧
      history decimalFormats mission missionID (snapshot s.commits ()) =
        .error (.invalidRecord .phaseMismatch) ∧
      (attemptTransition decimalFormats mission missionID "flying" "rule" "" none
        (snapshot s.commits ()) (clockAt 12 "u3")).toOption.isSome = false) (by decide +kernel) ?_
  rintro s - ⟨hperformed, hhistory, hrefused⟩
  refine ⟨hperformed, hhistory, by decide, ?_, fun h => ?_⟩
  · cases hattempt : attemptTransition decimalFormats mission missionID "flying" "rule" "" none
      (snapshot s.commits ()) (clockAt 12 "u3") with
    | error err => exact ⟨err, rfl⟩
    | ok outcome =>
      rw [hattempt] at hrefused
      cases hrefused
  · have hkept := (h false (by simp [hperformed])).1
    exact nomatch hhistory.symm.trans hkept

end SemStreams.Lifecycle
