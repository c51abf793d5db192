import SemStreams.GraphIngest.CanonicalMutations
/-!
# graph-ingest — the indexing profile of an entity

`reconcileIndexingProfile` gives an entity exactly one profile triple at its
birth, and the merge lane never overrides a profile that is there. The append
and reconcile lanes have no rule for the profile's predicate: an append adds a
second profile to the first, and a reconcile that selects the predicate puts its
own value, or none, in the place of the stored one.

`ProfileFixed` says that the profile is single-valued and the same from a birth
to the next deletion. `profileFixed_iff` says exactly which steps keep it.
-/

namespace SemStreams.GraphIngest

open SemStreams.Graph KeyedLog List Function Option

def profileValues (triples : List Triple) : List Object := (triples.filter isProfile).map Triple.object

/-- **One profile, from birth to deletion.** -/
def ProfileFixed (log : KeyedLog String EntityState) : Prop :=
  ∀ k, ∃ p, ∀ e ∈ life log k, profileValues e.triples = [p]

variable {l : List Triple}

theorem profileValues_append : profileValues (l ++ l') = profileValues l ++ profileValues l' := by
  simp [profileValues]

theorem profileValues_eq_nil_iff : profileValues l = [] ↔ ∀ t ∈ l, isProfile t = false := by
  simp [profileValues, filter_eq_nil_iff]

theorem profileValues_core (l : List Triple) : profileValues (core l) = (profileValues l).take 1 := by
  unfold profileValues core
  rw [filter_keepFirst_take, map_take]

theorem hasIndexingProfileTriple_iff : hasIndexingProfileTriple l ↔ profileValues l ≠ [] := by
  rw [ne_eq, profileValues_eq_nil_iff, hasIndexingProfileTriple, List.any_eq_true]
  simp

/-- **A birth has one profile.** -/
theorem profileValues_reconcile (registry : PayloadRegistry) (now : ℕ) (e : EntityState) :
    ∃ p, profileValues (reconcileIndexingProfile registry now e).triples = [p] := by
  rw [reconcile_eq]
  simp only [profileValues_append, profileValues_core]
  cases hp : hasIndexingProfileTriple e.triples with
  | true =>
    obtain ⟨p, _, hvalues⟩ := exists_cons_of_ne_nil (hasIndexingProfileTriple_iff.1 hp)
    exact ⟨p, by rw [hvalues]; rfl⟩
  | false =>
    have hnil : profileValues e.triples = [] := by
      by_contra hne
      rw [hasIndexingProfileTriple_iff.2 hne] at hp
      cases hp
    rw [hnil]
    exact ⟨.text (registeredIndexingProfile registry e.messageType).1,
      by simp [profileValues, isProfile, indexingProfileTriple]⟩

/-- **A merge keeps the resident's profile.** -/
theorem profileValues_updateFn (h : profileValues existing.triples = [p]) :
    profileValues (updateFn registry hierarchyTriples entity
      ⟨some existing, stampedAt, updatedAt⟩).1.triples = [p] := by
  have hhas : hasIndexingProfileTriple existing.triples :=
    hasIndexingProfileTriple_iff.2 (by rw [h]; simp)
  -- the incoming triples come without a profile, so the resident's is no conflict
  have hnewer : ∀ t ∈ triplesWithoutPredicate entity.triples entityIndexingProfile,
      isProfile t = false := by
    intro t ht
    rw [triplesWithoutPredicate_eq] at ht
    simpa using (mem_filter.1 ht).2
  have hkept : ((existing.triples.filter fun t =>
      !conflicts (triplesWithoutPredicate entity.triples entityIndexingProfile) t).filter isProfile) =
        existing.triples.filter isProfile := by
    rw [List.filter_filter]
    refine filter_congr fun t _ => ?_
    cases ht : isProfile t with
    | false => simp
    | true =>
      have hconf : conflicts (triplesWithoutPredicate entity.triples entityIndexingProfile) t = false := by
        rw [← Bool.not_eq_true, conflicts_iff]
        rintro ⟨n, hn, hkey⟩
        have hpred : n.predicate = t.predicate := congrArg Prod.snd hkey
        have hn' := hnewer n hn
        simp only [isProfile, hpred] at hn' ht
        rw [hn'] at ht
        cases ht
      simp [hconf]
  have hmerged : profileValues (mergeInto existing entity).triples = [p] := by
    simp only [mergeInto, hhas, if_true, mergeTriples_eq, profileValues_append]
    rw [profileValues_eq_nil_iff.2 hnewer, nil_append, ← h]
    unfold profileValues
    rw [hkept]
  simp only [updateFn, reconcile_eq]
  rw [hasIndexingProfileTriple_iff.2 (by rw [hmerged]; simp)]
  simp [profileValues_core, hmerged]

/-! ## What a step writes -/

/-- **The writes of the lanes.** A step writes a key and its new value, `none`
for a deletion. -/
inductive Commits (registry : PayloadRegistry) (s : Lanes) :
    MutationEvent → String → Option EntityState → Prop
  | created {request : CreateEntityRequest} {now : ℕ}
    (habsent : current s.log (createCandidate registry now request).id = none) :
    Commits registry s (.create request now) (createCandidate registry now request).id
      (some (createCandidate registry now request))
  | merged {i stampedAt updatedAt : ℕ} {answer : StoreAnswer} {call : MergeCall}
    {seen : Snapshot EntityState} (hcall : s.merges i = some call) (hseen : call.seen = some seen)
    (hadmits : admits s.log call.entity.id seen = true) :
    Commits registry s (.writeMerge i stampedAt updatedAt answer) call.entity.id
      (some (updateFn registry call.hierarchyTriples call.entity
        ⟨seen.map Prod.fst, stampedAt, updatedAt⟩).1)
  | appended {i now : ℕ} {answer : StoreAnswer} {call : AppendCall} {subject : String}
    {rest : List String} {seen : Snapshot EntityState} {candidate : EntityState} {suppressed : ℕ}
    (hcall : s.appends i = some call) (hleft : call.left = subject :: rest)
    (hseen : call.seen = some seen)
    (hok : appendClosure (bySubject call.triples subject) now (seen.map Prod.fst) =
      .ok (candidate, suppressed))
    (hadmits : admits s.log subject seen = true) (hlands : answer ≠ .failed false) :
    Commits registry s (.append i (.write now answer)) subject (some candidate)
  | reconciled {i now : ℕ} {answer : StoreAnswer} {call : ReconcileCall} {candidate : EntityState}
    (hcall : s.reconciles i = some call)
    (hcandidate : reconcileCandidate call.request now call.entity = some candidate)
    (hrevision : lastRevision s.log call.request.entityID = call.request.expectedRevision)
    (hlands : answer ≠ .failed false) :
    Commits registry s (.writeReconcile i now answer) call.request.entityID (some candidate)
  | deleted {entityID : String} {expectedRevision : ℕ} :
    Commits registry s (.delete entityID expectedRevision) entityID none

variable {registry : PayloadRegistry} {authorizeSubject : String → Bool} {s s' : Lanes}
  {e : MutationEvent}

theorem handleCanonicalCreate_ok
    (h : handleCanonicalCreate registry authorizeSubject now request log = .ok log') :
    current log (createCandidate registry now request).id = none ∧
      log' = ((createCandidate registry now request).id,
        some (createCandidate registry now request)) :: log := by
  unfold handleCanonicalCreate at h
  dsimp only [bind, Except.bind, pure, Except.pure] at h
  obtain ⟨-, h⟩ := ok_of_check h
  split at h
  · cases h
  obtain ⟨-, h⟩ := ok_of_check h
  obtain ⟨-, h⟩ := ok_of_check h
  obtain ⟨-, h⟩ := ok_of_check h
  split at h
  · cases h
  obtain ⟨-, h⟩ := ok_of_check h
  obtain ⟨habsent, h⟩ := ok_of_check h
  rw [Except.ok.injEq] at h
  rw [not_isSome_iff_eq_none] at habsent
  exact ⟨habsent, h.symm⟩

/-- **A step writes at most once**, and what it writes is a commit of its lane. -/
theorem commits_of_step (h : s.step registry authorizeSubject e = some s') :
    s'.log = s.log ∨ ∃ k v, Commits registry s e k v ∧ s'.log = (k, v) :: s.log := by
  cases e with (simp only [Lanes.step] at h; try (split at h; on_goal 2 => contradiction))
  | create request now =>
    split at h
    · rename_i log hok
      cases h
      obtain ⟨habsent, hlog⟩ := handleCanonicalCreate_ok hok
      exact .inr ⟨_, _, .created habsent, hlog⟩
    · cases h
      exact .inl rfl
  | append i e =>
    obtain ⟨⟨_, _⟩, hstep, rfl⟩ := map_eq_some_iff.1 h
    cases hcall : s.appends i with
    | none =>
      rw [hcall] at hstep
      cases e with
      | submit triples =>
        cases hstep
        exact .inl rfl
      | _ => cases hstep
    | some call =>
      rw [hcall] at hstep
      cases e with
      | write now answer =>
        simp only [appendStep] at hstep
        split at hstep
        · rename_i _ _ seen hleft hseen
          rw [Option.some.injEq] at hstep
          unfold AppendCall.write at hstep
          split at hstep
          · cases hstep
            exact .inl rfl
          · rename_i candidate _ hok
            split at hstep
            · rename_i hadmits
              rcases answer with _ | _ | _ <;> cases hstep
              · exact .inr ⟨_, _, .appended hcall hleft hseen hok hadmits (by simp), rfl⟩
              · exact .inl rfl
              · exact .inr ⟨_, _, .appended hcall hleft hseen hok hadmits (by simp), rfl⟩
            · cases hstep
              exact .inl rfl
        · cases hstep
      | submit triples => cases hstep
      | read | abandon | cancel | report answered =>
        simp only [appendStep] at hstep
        split at hstep <;> cases hstep
        exact .inl rfl
  | startMerge | readMerge | abandonMerge | startReconcile =>
    (repeat' split at h) <;> cases h <;> exact .inl rfl
  | writeMerge i stampedAt updatedAt answer =>
    rename_i _ _ seen hcall
    cases h
    unfold Lanes.writeMerge
    dsimp only
    split
    · exact .inl rfl
    split
    · rename_i hadmits
      rcases answer with _ | _ | _
      · exact .inr ⟨_, _, .merged hcall rfl hadmits, rfl⟩
      · exact .inl rfl
      · exact .inr ⟨_, _, .merged hcall rfl hadmits, rfl⟩
    · exact .inl rfl
  | writeReconcile i now answer =>
    rename_i call hcall
    cases h
    unfold Lanes.writeReconcile
    split
    · exact .inl rfl
    rename_i candidate hcandidate
    split
    · rename_i hlands
      exact .inr ⟨_, _, .reconciled hcall hcandidate hlands.1 hlands.2, rfl⟩
    · exact .inl rfl
  | delete entityID expectedRevision =>
    split at h
    · split at h <;> cases h
      · exact .inr ⟨_, _, .deleted, rfl⟩
      · exact .inl rfl
    · cases h
      exact .inl rfl

/-! ## Reads that are not outdated silently -/

/-- What every operation in progress read is not outdated silently, and an
admitted reconcile wants no predicate it does not select. -/
structure Lanes.Inv (s : Lanes) : Prop where
  appends : ∀ i c, s.appends i = some c → c.FreshRead s.log
  merges : ∀ i (c : MergeCall), s.merges i = some c →
    ∀ seen, c.seen = some seen → Fresh s.log c.entity.id seen
  reconciles : ∀ i (c : ReconcileCall), s.reconciles i = some c →
    Fresh s.log c.request.entityID (some (c.entity, c.request.expectedRevision)) ∧
      ∀ t ∈ c.request.desired, t.predicate ∈ c.request.predicates

open Lanes

theorem Lanes.inv_empty : Lanes.empty.Inv :=
  ⟨nofun, nofun, nofun⟩

/-- The reads stand when a key is written. -/
theorem Lanes.Inv.cons (hs : s.Inv) (w : String × Option EntityState) :
    Lanes.Inv { s with log := w :: s.log } where
  appends i c hc := fun subject rest seen hleft hseen =>
    (hs.appends i c hc subject rest seen hleft hseen).cons w
  merges i c hc seen hseen := (hs.merges i c hc seen hseen).cons w
  reconciles i c hc := ⟨(hs.reconciles i c hc).1.cons w, (hs.reconciles i c hc).2⟩

theorem Lanes.Inv.free_merge (hs : s.Inv) (i : ℕ) :
    Lanes.Inv { s with merges := update s.merges i none } :=
  { hs with merges := forall_slot_free hs.merges }

theorem Lanes.Inv.fill_merge (hs : s.Inv) (i : ℕ)
    (hc : ∀ seen, c.seen = some seen → Fresh s.log c.entity.id seen) :
    Lanes.Inv { s with merges := update s.merges i (some c) } :=
  { hs with merges := forall_slot_fill hc hs.merges }

theorem Lanes.Inv.free_reconcile (hs : s.Inv) (i : ℕ) :
    Lanes.Inv { s with reconciles := update s.reconciles i none } :=
  { hs with reconciles := forall_slot_free hs.reconciles }

theorem Lanes.Inv.writeMerge (hs : s.Inv) (i stampedAt updatedAt : ℕ) (answer : StoreAnswer)
    (call : MergeCall) (seen : Snapshot EntityState) :
    (s.writeMerge registry i stampedAt updatedAt answer call seen).Inv := by
  unfold Lanes.writeMerge
  dsimp only
  split
  · exact hs.free_merge i
  split
  · rcases answer with _ | _ | _
    · exact (hs.cons _).free_merge i
    · exact hs.fill_merge i (by rintro _ ⟨⟩)
    · exact (hs.cons _).fill_merge i (by rintro _ ⟨⟩)
  · exact hs.fill_merge i (by rintro _ ⟨⟩)

theorem Lanes.Inv.writeReconcile (hs : s.Inv) (i now : ℕ) (answer : StoreAnswer)
    (call : ReconcileCall) : (s.writeReconcile i now answer call).Inv := by
  unfold Lanes.writeReconcile
  split
  · exact hs.free_reconcile i
  · split
    · exact (hs.cons _).free_reconcile i
    · exact hs.free_reconcile i

variable {request : ReconcilePredicatesRequest}

theorem validateDesired_ok (h : validateDesired request index desired = .ok ()) :
    ∀ t ∈ desired, t.predicate ∈ request.predicates := by
  induction desired generalizing index with
  | nil => exact nofun
  | cons t desired ih =>
    obtain ⟨-, h⟩ := ok_of_check h
    obtain ⟨hpred, h⟩ := ok_of_check h
    intro u hu
    rcases mem_cons.1 hu with rfl | hu
    · exact not_not.1 hpred
    · exact ih h u hu

/-- What an admitted reconcile read, and what it may want. -/
theorem admitReconcile_ok {log : KeyedLog String EntityState} {entity : EntityState}
    (h : admitReconcile authorizeSubject request log = .ok entity) :
    snapshot log request.entityID = some (entity, request.expectedRevision) ∧
      (∀ t ∈ request.desired, t.predicate ∈ request.predicates) ∧
      validateEntityStateContract entity ∧ request.expectedRevision ≠ 0 := by
  unfold admitReconcile at h
  dsimp only [bind, Except.bind, pure, Except.pure] at h
  obtain ⟨-, h⟩ := ok_of_check h
  obtain ⟨-, h⟩ := ok_of_check h
  obtain ⟨hnonzero, h⟩ := ok_of_check h
  split at h
  · cases h
  rename_i hvalid
  split at h
  · cases h
  rename_i _ _ hsnap
  obtain ⟨hcontract, h⟩ := ok_of_check h
  obtain ⟨hrevision, h⟩ := ok_of_check h
  cases h
  refine ⟨by rw [hsnap, not_not.1 hrevision], ?_, by simpa using hcontract, hnonzero⟩
  unfold validateCanonicalReconcileRequest at hvalid
  dsimp only [bind, Except.bind, pure, Except.pure] at hvalid
  obtain ⟨-, hvalid⟩ := ok_of_check hvalid
  obtain ⟨-, hvalid⟩ := ok_of_check hvalid
  split at hvalid
  · cases hvalid
  · rename_i hdesired
    exact validateDesired_ok hdesired

theorem Lanes.Inv.step (hs : s.Inv) (h : s.step registry authorizeSubject e = some s') : s'.Inv := by
  cases e with (simp only [step] at h; try (split at h; on_goal 2 => contradiction); try cases h)
  | create request now =>
    split at h
    · rename_i log hok
      cases h
      obtain ⟨-, rfl⟩ := handleCanonicalCreate_ok hok
      exact hs.cons _
    · cases h
      exact hs
  | append i e =>
    obtain ⟨⟨log', _⟩, hstep, rfl⟩ := map_eq_some_iff.1 h
    have happ := appends_of_appendStep hstep
    have hlater : Lanes.Inv { s with log := log' } := by
      rcases happ.log_cases with rfl | ⟨k, _, rfl, -⟩
      · exact hs
      · exact hs.cons _
    exact { hlater with appends := forall_slot_fill (freshRead_of_appends happ) hlater.appends }
  | startMerge i entity hierarchyTriples =>
    split at h
    · cases h
    split at h <;> cases h
    · exact hs.fill_merge i nofun
    · exact hs
  | readMerge i =>
    refine hs.fill_merge i fun seen hseen => ?_
    cases hseen
    exact fresh_snapshot s.log _
  | writeMerge i stampedAt updatedAt answer => exact hs.writeMerge i stampedAt updatedAt answer _ _
  | abandonMerge i => exact hs.free_merge i
  | startReconcile i request =>
    split at h
    · cases h
    split at h
    · rename_i entity hok
      cases h
      obtain ⟨hsnap, hdesired, -⟩ := admitReconcile_ok hok
      refine { hs with reconciles := forall_slot_fill ⟨?_, hdesired⟩ hs.reconciles }
      exact hsnap ▸ fresh_snapshot s.log request.entityID
    · cases h
      exact hs
  | writeReconcile i now answer => exact hs.writeReconcile i now answer _
  | delete entityID expectedRevision =>
    split at h
    · split at h <;> cases h
      · exact hs.cons _
      · exact hs
    · cases h
      exact hs

/-! ## Which steps keep the profile -/

variable {log : KeyedLog String EntityState} {k : String} {e' : EntityState}

theorem profileFixed_nil : ProfileFixed [] := fun _ => ⟨.text "", nofun⟩

theorem profileFixed_delete (h : ProfileFixed log) : ProfileFixed ((k, none) :: log) := by
  intro k'
  by_cases hk : k = k'
  · subst hk
    rw [life_delete_self]
    exact ⟨.text "", nofun⟩
  · rw [life_cons_of_ne hk]
    exact h k'

/-- A write keeps the profile fixed exactly if it keeps the key's profile, or
brings exactly one to a key without a value. -/
theorem profileFixed_write (h : ProfileFixed log) : ProfileFixed ((k, some e') :: log) ↔
      match current log k with
      | none => ∃ p, profileValues e'.triples = [p]
      | some e => profileValues e'.triples = profileValues e.triples := by
  obtain ⟨p, hp⟩ := h k
  have hlife : ∀ q, (∀ e ∈ life log k, profileValues e.triples = [q]) →
      profileValues e'.triples = [q] → ProfileFixed ((k, some e') :: log) := by
    intro q hq hq' k'
    by_cases hk : k = k'
    · subst hk
      refine ⟨q, fun e he => ?_⟩
      rw [life_write_self] at he
      rcases mem_cons.1 he with rfl | he
      · exact hq'
      · exact hq e he
    · rw [life_cons_of_ne hk]
      exact h k'
  have hnew : ProfileFixed ((k, some e') :: log) →
      ∃ q, profileValues e'.triples = [q] ∧ ∀ e ∈ life log k, profileValues e.triples = [q] := by
    intro hfixed
    obtain ⟨q, hq⟩ := hfixed k
    rw [life_write_self] at hq
    exact ⟨q, hq e' mem_cons_self, fun e he => hq e (mem_cons_of_mem _ he)⟩
  rw [current_eq_head?_life]
  cases hl : life log k with
  | nil =>
    constructor
    · intro hfixed
      obtain ⟨q, hq, -⟩ := hnew hfixed
      exact ⟨q, hq⟩
    · rintro ⟨q, hq⟩
      exact hlife q (by rw [hl]; exact nofun) hq
  | cons e rest =>
    have he : profileValues e.triples = [p] := hp e (by rw [hl]; exact mem_cons_self)
    simp only [List.head?_cons, he]
    constructor
    · intro hfixed
      obtain ⟨q, hq, hall⟩ := hnew hfixed
      rw [hq, ← hall e (by rw [hl]; exact mem_cons_self), he]
    · exact hlife p hp

/-- **The steps that keep the profile.** An append keeps it if no new profile
triple gets through to a commit, a reconcile that selects the profile's
predicate if it commits the stored value. Every other step does. -/
def Lanes.KeepsProfile (s : Lanes) : MutationEvent → Prop
  | .append i (.write now answer) =>
    ∀ call subject rest entity revision candidate suppressed, s.appends i = some call →
      call.left = subject :: rest → call.seen = some (some (entity, revision)) →
      appendClosure (bySubject call.triples subject) now (some entity) = .ok (candidate, suppressed) →
      admits s.log subject (some (entity, revision)) = true → answer ≠ .failed false →
      ∀ t ∈ (dedupeAppendTriples entity.triples (bySubject call.triples subject)).1, isProfile t = false
  | .writeReconcile i now answer =>
    ∀ call candidate, s.reconciles i = some call →
      reconcileCandidate call.request now call.entity = some candidate →
      lastRevision s.log call.request.entityID = call.request.expectedRevision →
      answer ≠ .failed false → entityIndexingProfile ∈ call.request.predicates →
      profileValues (dedupeReconcileTriples call.request.desired) = profileValues call.entity.triples
  | _ => True

theorem profileValues_reconcileCandidate
    (h : reconcileCandidate request now entity = some candidate)
    (hdesired : ∀ t ∈ request.desired, t.predicate ∈ request.predicates) :
    profileValues candidate.triples =
      if entityIndexingProfile ∈ request.predicates then
        profileValues (dedupeReconcileTriples request.desired)
      else profileValues entity.triples := by
  have hwanted : ∀ t ∈ dedupeReconcileTriples request.desired, t.predicate ∈ request.predicates :=
    fun t ht => hdesired t (mem_of_mem_keepNew ht).1
  unfold profileValues
  rw [(reconcileCandidate_eq_some h).1]
  split
  · rename_i hmem
    refine congrArg _ (filter_reconcile_of_selected (p := (· == entityIndexingProfile)) fun q hq => ?_)
    rwa [beq_iff_eq.1 hq]
  · rename_i hmem
    refine congrArg _ (filter_reconcile_of_unselected (p := (· == entityIndexingProfile))
      (fun q hq => ?_) hwanted)
    rwa [beq_iff_eq.1 hq]

/-- A step that leaves the bucket as it is keeps the profile. -/
theorem keepsProfile_of_log (h : s.step registry authorizeSubject e = some s')
    (hlog : s'.log = s.log) : s.KeepsProfile e := by
  unfold KeepsProfile
  split
  · rename_i i _ answer
    intro call _ _ _ _ candidate _ hcall hleft hseen hok hadmits hlands
    obtain ⟨⟨_, _⟩, hstep, rfl⟩ := map_eq_some_iff.1 h
    simp only [hcall, appendStep, hleft, hseen, AppendCall.write, map_some, hok, hadmits,
      if_true] at hstep
    rcases answer with _ | _ | _ <;> cases hstep
    · exact absurd hlog (cons_ne_self _ _)
    · exact absurd rfl hlands
    · exact absurd hlog (cons_ne_self _ _)
  · intro call candidate hcall hcandidate hrevision hlands
    simp only [step, hcall, writeReconcile, hcandidate] at h
    rw [if_pos ⟨hrevision, hlands⟩] at h
    cases h
    exact absurd hlog (cons_ne_self _ _)
  · trivial

/-- **One step, exactly.** -/
theorem profileFixed_step_iff (hs : s.Inv) (hfixed : ProfileFixed s.log)
    (h : s.step registry authorizeSubject e = some s') :
    ProfileFixed s'.log ↔ s.KeepsProfile e := by
  rcases commits_of_step h with hlog | ⟨k, v, hcommit, hlog⟩
  · rw [hlog]
    exact ⟨fun _ => keepsProfile_of_log h hlog, fun _ => hfixed⟩
  rw [hlog]
  cases hcommit with
  | created habsent =>
    rw [profileFixed_write hfixed, habsent]
    exact ⟨fun _ => trivial, fun _ => profileValues_reconcile registry _ _⟩
  | merged hcall hseen hadmits =>
    rename_i i _ _ answer call seen
    refine ⟨fun _ => trivial, fun _ => ?_⟩
    have hcur := (hs.merges i call hcall seen hseen).current_of_admits hadmits
    rw [profileFixed_write hfixed, hcur]
    match seen with
    | none => exact profileValues_reconcile registry _ _
    | some (existing, revision) =>
      obtain ⟨p, hp⟩ := hfixed call.entity.id
      have hmem : existing ∈ life s.log call.entity.id := by
        rw [current_eq_head?_life] at hcur
        exact mem_of_mem_head? hcur
      simp only [map_some]
      rw [hp existing hmem]
      exact profileValues_updateFn (hp existing hmem)
  | appended hcall hleft hseen hok hadmits hlands =>
    rename_i i now answer call rest seen candidate suppressed
    have hcur := (hs.appends i call hcall k rest seen hleft hseen).current_of_admits hadmits
    obtain ⟨entity, hentity, htriples, -, -⟩ := appendClosure_ok hok
    rw [profileFixed_write hfixed, hcur, hentity]
    simp only [htriples, profileValues_append, append_right_eq_self, profileValues_eq_nil_iff]
    obtain ⟨⟨entity', revision⟩, rfl, rfl⟩ := map_eq_some_iff.1 hentity
    constructor
    · intro hnone call' _ _ _ _ candidate' _ hcall' hleft' hseen'
      rw [hcall] at hcall'
      cases hcall'
      rw [hleft, List.cons.injEq] at hleft'
      rw [hseen, Option.some.injEq, Option.some.injEq, Prod.mk.injEq] at hseen'
      obtain ⟨rfl, -⟩ := hleft'
      obtain ⟨rfl, -⟩ := hseen'
      exact fun _ _ _ => hnone
    · intro hkeeps
      exact hkeeps call k rest entity' revision candidate suppressed hcall hleft hseen hok hadmits
        hlands
  | reconciled hcall hcandidate hrevision hlands =>
    rename_i i now answer call candidate
    obtain ⟨hfresh, hdesired⟩ := hs.reconciles i call hcall
    have hcur := (hfresh _ _ rfl).2 hrevision
    rw [profileFixed_write hfixed, hcur]
    simp only [profileValues_reconcileCandidate hcandidate hdesired]
    constructor
    · intro hsame call' candidate' hcall' _ _ _ hmem
      rw [hcall] at hcall'
      cases hcall'
      rwa [if_pos hmem] at hsame
    · intro hkeeps
      split
      · rename_i hmem
        exact hkeeps call candidate hcall hcandidate hrevision hlands hmem
      · rfl
  | deleted => exact ⟨fun _ => trivial, fun _ => profileFixed_delete hfixed⟩

/-- **When the indexing profile is single-valued and immutable.** In a run of the
lanes from the empty bucket, every state reached has one profile per entity, the
same from its birth to its deletion, exactly if every step keeps the profile. -/
theorem profileFixed_iff {registry : PayloadRegistry} {authorizeSubject : String → Bool}
    {es : List MutationEvent} {s : Lanes}
    (h : run (step registry authorizeSubject) empty es = some s) :
    (∀ pre t, pre <+: es → run (step registry authorizeSubject) empty pre = some t →
        ProfileFixed t.log) ↔
      Along (step registry authorizeSubject) KeepsProfile empty es :=
  always_iff_along (fun _ _ _ hs hstep => hs.step hstep)
    (fun _ _ _ hs hfixed hstep => profileFixed_step_iff hs hfixed hstep) inv_empty
    profileFixed_nil h

/-- A lamp, created with the profile `content`. -/
def lamp : String := "acme.dep1.home.light.lamp.3"

def lampTriple (predicate value : String) : Triple where
  subject := lamp
  predicate := predicate
  object := .text value

def lampRegistry : PayloadRegistry := some fun _ => some indexingProfileControl

def createLamp : MutationEvent :=
  .create ⟨⟨lamp, [], none, ⟨"home", "lamp", "v1"⟩, 0, 0⟩, [], "content"⟩ 1

/-- A tag is appended, an arrival that declares another profile is merged, and
the lamp is deleted and created again. -/
def lampLife : List MutationEvent :=
  [createLamp, .append 0 (.submit [lampTriple "light.lamp.tag" "hall"]), .append 0 .read,
    .append 0 (.write 2 .ok),
    .startMerge 0 ⟨lamp, [lampTriple entityIndexingProfile "trace"], none,
      ⟨"home", "lamp", "v1"⟩, 1, 0⟩ [],
    .readMerge 0, .writeMerge 0 3 3 .ok, .delete lamp 3, createLamp]

set_option maxRecDepth 10000 in
/-- The profile is fixed through the lamp's life. -/
theorem profileFixed_lampLife : ∃ s, run (step lampRegistry fun _ => true) empty lampLife = some s ∧
      ProfileFixed s.log := by
  refine' ⟨_, ?run, (profileFixed_iff ?run).2 ?_ lampLife _ prefix_rfl ?run⟩
  · rfl
  iterate 3 refine (along_cons rfl).2 ⟨trivial, ?_⟩
  refine (along_cons rfl).2 ⟨?_, ?_⟩
  · -- the only survivor of the append is the tag
    intro _ _ _ _ _ _ _ hcall hleft hseen _ _ _ t ht
    cases hcall
    cases hleft
    cases hseen
    have htag : t ∈ [lampTriple "light.lamp.tag" "hall"] := ht
    rw [mem_singleton.1 htag]
    rfl
  · repeat refine (along_cons rfl).2 ⟨trivial, ?_⟩
    exact trivial

/-- An append of a second profile, and a reconcile that replaces the first. -/
def appendProfile : List MutationEvent :=
  [createLamp, .append 0 (.submit [lampTriple entityIndexingProfile "trace"]), .append 0 .read,
    .append 0 (.write 2 .ok)]

def reconcileProfile : List MutationEvent :=
  [createLamp,
    .startReconcile 0 ⟨lamp, 1, [entityIndexingProfile], [lampTriple entityIndexingProfile "trace"]⟩,
    .writeReconcile 0 2 .ok]

theorem not_profileFixed (h : (life log k).map (fun e => profileValues e.triples) = values)
    (hvalues : ¬ ∃ p, ∀ v ∈ values, v = [p]) : ¬ ProfileFixed log := by
  intro hfixed
  obtain ⟨p, hp⟩ := hfixed k
  refine hvalues ⟨p, fun v hv => ?_⟩
  rw [← h] at hv
  obtain ⟨e, he, rfl⟩ := List.mem_map.1 hv
  exact hp e he

set_option maxRecDepth 10000 in
/-- **Append and reconcile break it.** After the append the lamp has two profile
triples; the reconcile changes the profile from `content` to `trace`. -/
theorem profile_not_fixed :
    (∃ s, run (step lampRegistry fun _ => true) empty appendProfile = some s ∧
      ¬ ProfileFixed s.log) ∧
    ∃ s, run (step lampRegistry fun _ => true) empty reconcileProfile = some s ∧
      ¬ ProfileFixed s.log := by
  constructor
  · refine ⟨_, rfl, @not_profileFixed _ lamp [[.text "content", .text "trace"], [.text "content"]]
      rfl ?_⟩
    rintro ⟨p, hp⟩
    exact absurd (hp _ mem_cons_self) (by simp)
  · refine ⟨_, rfl, @not_profileFixed _ lamp [[.text "trace"], [.text "content"]] rfl ?_⟩
    rintro ⟨p, hp⟩
    have h₁ := hp [.text "trace"] (by simp)
    have h₂ := hp [.text "content"] (by simp)
    rw [← h₁] at h₂
    simp at h₂

theorem countsSuffice_self {κ : Type} [DecidableEq κ] (counts : List κ) :
    countsSuffice counts counts := by
  induction counts with
  | nil => rfl
  | cons d counts ih => simpa [countsSuffice] using ih

/-- A request that was admitted is admitted again at the revision of a later write. -/
theorem admitReconcile_retry (h : admitReconcile authorizeSubject request log = .ok entity)
    (hsnap : snapshot log' request.entityID = some (candidate, revision)) (hrevision : revision ≠ 0)
    (hcontract : validateEntityStateContract candidate) :
    admitReconcile authorizeSubject { request with expectedRevision := revision } log' =
      .ok candidate := by
  have hsame : validateCanonicalReconcileRequest { request with expectedRevision := revision } =
      validateCanonicalReconcileRequest request := by
    have hdesired : ∀ desired index, validateDesired { request with expectedRevision := revision }
        index desired = validateDesired request index desired := by
      intro desired
      induction desired with
      | nil => exact fun _ => rfl
      | cons t desired ih => exact fun _ => by simp only [validateDesired, ih]
    simp only [validateCanonicalReconcileRequest, hdesired]
  unfold admitReconcile at h ⊢
  dsimp only [bind, Except.bind, pure, Except.pure] at h ⊢
  obtain ⟨hid, h⟩ := ok_of_check h
  obtain ⟨hauthority, h⟩ := ok_of_check h
  obtain ⟨-, h⟩ := ok_of_check h
  rw [if_neg hid, if_neg hauthority, if_neg hrevision, hsame]
  split at h
  · cases h
  · simp [hsnap, hcontract]

/-- **A reconcile leaves the other predicates alone, and a retry at the new revision is admitted
and finds nothing to change.** -/
theorem reconcile_settles {log : KeyedLog String EntityState} {entity candidate : EntityState}
    {now : ℕ} (hread : admitReconcile authorizeSubject request log = .ok entity)
    (h : reconcileCandidate request now entity = some candidate) :
    let log' := (request.entityID, some candidate) :: log
    let retry := { request with expectedRevision := lastRevision log' request.entityID }
    candidate.triples.filter (fun t => !selected request.predicates t) =
        entity.triples.filter (fun t => !selected request.predicates t) ∧
      selectedPredicatesEqual candidate.triples (dedupeReconcileTriples request.desired)
        request.predicates ∧
      admitReconcile authorizeSubject retry log' = .ok candidate ∧
      ∀ now', reconcileCandidate retry now' candidate = none := by
  intro log' retry
  have hdesired : ∀ t ∈ dedupeReconcileTriples request.desired, t.predicate ∈ request.predicates :=
    fun t ht => (admitReconcile_ok hread).2.1 t (mem_of_mem_keepNew ht).1
  obtain ⟨htriples, hcontract⟩ := reconcileCandidate_eq_some h
  have hequal : selectedPredicatesEqual candidate.triples (dedupeReconcileTriples request.desired)
      request.predicates := by
    have hsame : (reconcileSelectedPredicates entity.triples
        (dedupeReconcileTriples request.desired) request.predicates).filter
        (selected request.predicates) = dedupeReconcileTriples request.desired :=
      (filter_reconcile_of_selected (p := (· ∈ request.predicates)) (by simp)).trans
        (filter_eq_self.2 (by simpa using hdesired))
    simp [htriples, selectedPredicatesEqual, hsame, countsSuffice_self]
  refine ⟨?_, hequal, ?_, fun now' => ?_⟩
  · rw [htriples]
    exact filter_reconcile_of_unselected (p := fun q => !decide (q ∈ request.predicates)) (by simp)
      hdesired
  · refine admitReconcile_retry hread ?_ ?_ hcontract <;> simp [log', snapshot, current, lastRevision]
  · simp [reconcileCandidate, retry, hequal]

set_option maxRecDepth 10000 in
theorem reconcile_settles_lamp : ∃ r log e e', admitReconcile (fun _ => true) r log = .ok e ∧
    reconcileCandidate r 2 e = some e' ∧ e'.triples = [lampTriple "lamp.power.state" "on",
      lampTriple entityIndexingProfile "trace"] ∧
    admitReconcile (fun _ => true) { r with expectedRevision := 2 } ((lamp, some e') :: log) =
      .ok e' := by
  refine' ⟨⟨lamp, 1, [entityIndexingProfile], [lampTriple entityIndexingProfile "trace"]⟩,
    [(lamp, some ⟨lamp, [lampTriple entityIndexingProfile "content",
      lampTriple "lamp.power.state" "on"], none, ⟨"home", "lamp", "v1"⟩, 1, 1⟩)], _, _, ?read,
    ?candidate, ?_, (reconcile_settles ?read ?candidate).2.2.1⟩
  case read => rfl
  case candidate => rfl
  rfl

end SemStreams.GraphIngest
