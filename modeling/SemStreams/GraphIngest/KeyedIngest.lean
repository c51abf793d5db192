import Mathlib.Data.List.Nodup
import SemStreams.Lib.Run
import SemStreams.GraphIngest.MergeEntity
/-!
# graph-ingest — the keyed ingest lane and its redelivery guard

`processIngest` runs on the one goroutine of an entity's lane. It prepares
the arrival, drops it if the redelivery guard has seen its sequence or a
higher one, merges it into the stored entity, stamps the guard and acks.
The guard has a durable tier and a cache of it in memory; a failed step
answers Nak, and the message comes back later.

The guard keeps one sequence per entity and stream. So an arrival that was
turned back by a transient failure is dropped on its return once a later
arrival has been applied, with the facts only it carried.
`facts_complete_iff` says that those drops are all that can go wrong.
-/

namespace SemStreams.GraphIngest

open SemStreams.Graph List

/-- What the lane reads of its surroundings: the payload registry, the
hierarchy triples of the entity, and the three checks of
`prepareFactProjection` that look at nothing but the candidate. -/
structure LaneConfig where
  registry : PayloadRegistry
  hierarchyTriples : List Triple
  validateEntityID : String → Bool
  authorizeSubject : String → Bool → Bool
  validateEntityStateContract : EntityState → Bool

/-- `ingestWork`: the decoded arrival and its stream sequence. -/
structure IngestWork where
  entity : EntityState
  seq : ℕ
  importLane : Bool := false
deriving DecidableEq

/-- `fillFactProjectionSubjects`: an omitted subject is the envelope's. -/
def fillFactProjectionSubjects (entityID : String) (triples : List Triple) : List Triple :=
  triples.map fun t => if t.subject = "" then { t with subject := entityID } else t

/-- `prepareFactProjection`: the candidate with its subjects filled in,
`none` where it is rejected. -/
def prepareFactProjection (cfg : LaneConfig) (importLane : Bool) (entity : EntityState) :
    Option EntityState :=
  if cfg.validateEntityID entity.id = false then none
  else if cfg.authorizeSubject entity.id importLane = false then none
  else
    let prepared := { entity with triples := fillFactProjectionSubjects entity.id entity.triples }
    if prepared.triples.any fun t => t.subject ≠ entity.id then none
    else if cfg.validateEntityStateContract prepared = false then none
    else some prepared

/-- How one attempt of the merge meets the bucket: its read fails, its
write fails though it may have landed, or its write commits. -/
inductive WriteOutcome
  | getFailed
  | failed (landed : Bool)
  | committed
deriving DecidableEq

structure MergeAttempt where
  stampedAt : ℕ
  updatedAt : ℕ
  outcome : WriteOutcome

/-- The class of the error `ingestEntity` returns. -/
inductive IngestError
  /-- `graph.StateContractError`: the resident state is poisoned. -/
  | stateContract
  | invalid
  | fatal
  | transient
deriving DecidableEq

/-- How the environment answers one delivery. -/
structure Surroundings where
  guardReadOk : Bool := true
  /-- the hierarchy probe finds the key absent and the inference answers -/
  hierarchyOk : Bool := true
  attempts : List MergeAttempt
  /-- the class of the failure when no attempt commits -/
  mergeError : IngestError := .transient
  stampOk : Bool := true
  /-- a failed stamp that is in the bucket all the same -/
  stampLanded : Bool := false

/-- The attempts of `mergeEntityOnLane`: the stored entity after them, and
whether one of them committed. Each works on the incoming entity as the
attempts before left it. -/
def mergeEntityOnLane (registry : PayloadRegistry) (hierarchyTriples : List Triple) :
    EntityState → Option EntityState → List MergeAttempt → Option EntityState × Bool
  | _, stored, [] => (stored, false)
  | entity, stored, a :: as =>
    let (value, left) := updateFn registry hierarchyTriples entity ⟨stored, a.stampedAt, a.updatedAt⟩
    match a.outcome with
    | .getFailed => mergeEntityOnLane registry hierarchyTriples entity stored as
    | .failed landed =>
      mergeEntityOnLane registry hierarchyTriples left (if landed then some value else stored) as
    | .committed => (some value, true)

/-- The lane and the buckets, as far as one entity and one stream see them:
the stored entity, the two tiers of the guard, and the messages answered
with Ack and with Term. -/
structure LaneState where
  stored : Option EntityState
  durable : Option ℕ := none
  mem : Option ℕ := none
  acked : List ℕ := []
  termed : List ℕ := []

open LaneState

/-- `ingestGuardStale`: whether the sequence is not newer than the guard's,
and the state with the cache warmed. `none` when the durable tier cannot be
read. -/
def ingestGuardStale (s : LaneState) (seq : ℕ) (readOk : Bool) : Option (Bool × LaneState) :=
  match s.mem with
  | some last => some (decide (seq ≤ last), s)
  | none =>
    if readOk then
      match s.durable with
      | none => some (false, s)
      | some last => some (decide (seq ≤ last), { s with mem := some last })
    else none

/-- `ingestEntity` on a prepared candidate: it is prepared once more, and
merged. -/
def ingestEntity (cfg : LaneConfig) (importLane : Bool) (entity : EntityState)
    (stored : Option EntityState) (env : Surroundings) : Option EntityState × Option IngestError :=
  match prepareFactProjection cfg importLane entity with
  | none => (stored, some .invalid)
  | some entity =>
    let hierarchyTriples := if env.hierarchyOk then cfg.hierarchyTriples else []
    match mergeEntityOnLane cfg.registry hierarchyTriples entity stored env.attempts with
    | (stored, true) => (stored, none)
    | (stored, false) => (stored, some env.mergeError)

/-- `processIngest`. A Nak leaves no trace but what the failed step left. -/
def processIngest (cfg : LaneConfig) (s : LaneState) (work : IngestWork) (env : Surroundings) :
    LaneState :=
  match prepareFactProjection cfg work.importLane work.entity with
  | none => { s with termed := work.seq :: s.termed }
  | some entity =>
    match ingestGuardStale s work.seq env.guardReadOk with
    | none => s
    | some (true, s) => { s with acked := work.seq :: s.acked }
    | some (false, s) =>
      match ingestEntity cfg work.importLane entity s.stored env with
      | (stored, some .stateContract) => { s with stored }
      | (stored, some .transient) => { s with stored }
      | (stored, some .invalid) => { s with stored, termed := work.seq :: s.termed }
      | (stored, some .fatal) => { s with stored, termed := work.seq :: s.termed }
      | (stored, none) =>
        if env.stampOk then
          { s with stored, durable := some work.seq, mem := some work.seq
                   acked := work.seq :: s.acked }
        else if env.stampLanded then { s with stored, durable := some work.seq }
        else { s with stored }

/-- The messages of one stream addressed to one entity, in stream order. -/
structure Backlog (entityID : String) where
  works : List IngestWork
  addressed : ∀ w ∈ works, w.entity.id = entityID
  ordered : works.Pairwise fun w w' => w.seq < w'.seq

/-- A delivery of one of the messages, at any time and any number of times,
or the loss of the cached guard to an eviction or a restart. -/
inductive LaneEvent
  | deliver (work : IngestWork) (env : Surroundings)
  | forget

def laneStep (cfg : LaneConfig) {entityID : String} (backlog : Backlog entityID) (s : LaneState) :
    LaneEvent → Option LaneState
  | .deliver work env => if work ∈ backlog.works then some (processIngest cfg s work env) else none
  | .forget => some { s with mem := none }

/-! ## What the merge does to a fact -/

/-- The triples of a stored or prepared entity. -/
def facts (e : Option EntityState) : List Triple := e.elim [] EntityState.triples

/-- The facts of a message, as the lane projects them. -/
def IngestWork.facts (cfg : LaneConfig) (w : IngestWork) : List Triple :=
  GraphIngest.facts (prepareFactProjection cfg w.importLane w.entity)

/-- A key under which the lane itself writes: the indexing profile and the
container memberships. -/
def Stamped (cfg : LaneConfig) (k : String × String) : Prop :=
  k.2 = entityIndexingProfile ∨ Carries cfg.hierarchyTriples k

section Merge

theorem carries_congr
    (h : ∀ t : Triple, t.key = k → (t ∈ l ↔ t ∈ l')) : Carries l k ↔ Carries l' k := by
  constructor
  · rintro ⟨x, hx, hk⟩
    exact ⟨x, (h x hk).1 hx, hk⟩
  · rintro ⟨x, hx, hk⟩
    exact ⟨x, (h x hk).2 hx, hk⟩

/-- **What the attempts leave of a fact.** Under a key of its own, the
stored entity keeps what it held unless the incoming entity carries the
key, and then it holds the incoming facts once an attempt commits. -/
theorem mem_mergeEntityOnLane {registry : PayloadRegistry} {hierarchyTriples : List Triple}
    {entity : EntityState} {stored : Option EntityState} {attempts : List MergeAttempt}
    {k : String × String} (hprofile : k.2 ≠ entityIndexingProfile)
    (hhierarchy : ¬ Carries hierarchyTriples k) :
    let out := mergeEntityOnLane registry hierarchyTriples entity stored attempts
    (¬ Carries entity.triples k → ∀ t : Triple, t.key = k → (t ∈ facts out.1 ↔ t ∈ facts stored)) ∧
    (Carries entity.triples k → out.2 →
      ∀ t : Triple, t.key = k → (t ∈ facts out.1 ↔ t ∈ entity.triples)) := by
  have hunprofiled : ∀ t : Triple, t.key = k → isProfile t = false := by
    rintro t rfl
    have hpred : t.predicate ≠ entityIndexingProfile := hprofile
    simpa [isProfile] using hpred
  induction attempts generalizing entity stored with
  | nil => exact ⟨fun _ _ _ => Iff.rfl, fun _ h => absurd h (by simp [mergeEntityOnLane])⟩
  | cons a as ih =>
    -- the value an attempt computes, and what it leaves of the incoming entity
    obtain ⟨u, hu⟩ : ∃ u, updateFn registry hierarchyTriples entity
      ⟨stored, a.stampedAt, a.updatedAt⟩ = u := ⟨_, rfl⟩
    have hvalue : ∀ t : Triple, t.key = k → (t ∈ u.1.triples ↔
        if Carries entity.triples k then t ∈ entity.triples else t ∈ facts stored) := by
      intro t ht
      rw [← hu, mem_updateFn (hunprofiled t ht) (ht ▸ hhierarchy), ht]
      cases stored <;> simp [facts]
    have hleft : ∀ t : Triple, t.key = k → (t ∈ u.2.triples ↔ t ∈ entity.triples) :=
      fun t ht => hu ▸ mem_updateFn_left (hunprofiled t ht) (ht ▸ hhierarchy)
    simp only [mergeEntityOnLane, hu]
    cases a.outcome with
    | getFailed => exact ih
    | failed landed =>
      obtain ⟨hkept, hnew⟩ := @ih u.2 (if landed then some u.1 else stored)
      have hcarries := carries_congr hleft
      refine ⟨fun hc t ht => ?_, fun hc hok t ht => ?_⟩
      · rw [hkept (fun h => hc (hcarries.1 h)) t ht]
        split
        · exact (hvalue t ht).trans (by rw [if_neg hc])
        · rfl
      · rw [hnew (hcarries.2 hc) hok t ht, hleft t ht]
    | committed =>
      refine ⟨fun hc t ht => (hvalue t ht).trans (by rw [if_neg hc]), fun hc _ t ht => ?_⟩
      exact (hvalue t ht).trans (by rw [if_pos hc])

/-- A prepared candidate passes a second preparation unchanged. -/
theorem prepareFactProjection_idem
    (h : prepareFactProjection cfg importLane entity = some prepared) :
    prepareFactProjection cfg importLane prepared = some prepared := by
  unfold prepareFactProjection at h
  split at h
  · simp at h
  rename_i hid
  split at h
  · simp at h
  rename_i hauth
  simp only at h
  split at h
  · simp at h
  rename_i hsubjects
  split at h
  · simp at h
  rename_i hcontract
  rw [Option.some.injEq] at h
  -- every subject is filled in, so filling in changes nothing
  have hsubject : ∀ t ∈ fillFactProjectionSubjects entity.id entity.triples,
      t.subject = entity.id := by
    intro t ht
    by_contra hne
    exact hsubjects (List.any_eq_true.2 ⟨t, ht, by simpa using hne⟩)
  have hfill : fillFactProjectionSubjects entity.id
      (fillFactProjectionSubjects entity.id entity.triples) =
        fillFactProjectionSubjects entity.id entity.triples := by
    conv_rhs => rw [← List.map_id (fillFactProjectionSubjects entity.id entity.triples)]
    refine map_congr_left fun t ht => ?_
    split
    · have hs := hsubject t ht
      cases t
      simp_all
    · rfl
  subst h
  unfold prepareFactProjection
  simp only [hfill]
  rw [if_neg hid, if_neg hauth, if_neg hsubjects, if_neg hcontract]

end Merge

/-! ## What a delivery can do -/

/-- The sequence the guard compares with: the cached one, or the durable
one where nothing is cached. -/
def LaneState.guard (s : LaneState) : Option ℕ := s.mem <|> s.durable

/-- The guard stands at the sequence or beyond it. -/
def LaneState.Passed (s : LaneState) (seq : ℕ) : Prop := ∃ g, s.guard = some g ∧ seq ≤ g

/-- Two entities hold the same facts under a key. -/
def SameFacts (k : String × String) (l l' : List Triple) : Prop :=
  ∀ t : Triple, t.key = k → (t ∈ l ↔ t ∈ l')

/-- **What a delivery can do.** It is turned back or rejected before it
touches anything; it is dropped; it fails in the merge or after it; or it
is applied. -/
inductive Handled (cfg : LaneConfig) (s : LaneState) (w : IngestWork) (s' : LaneState) : Prop
  | untouched (hstored : s'.stored = s.stored) (hdurable : s'.durable = s.durable)
      (hmem : s'.mem = s.mem) (hacked : s'.acked = s.acked)
  | dropped (hpassed : s.Passed w.seq) (hstored : s'.stored = s.stored)
      (hdurable : s'.durable = s.durable) (hmem : s'.mem = s.guard)
      (hacked : s'.acked = w.seq :: s.acked)
  | failed (hnew : ¬ s.Passed w.seq)
      (hstored : ∀ k, ¬ Stamped cfg k → ¬ Carries (w.facts cfg) k →
        SameFacts k (facts s'.stored) (facts s.stored))
      (hdurable : s'.durable = s.durable ∨ s'.durable = some w.seq) (hmem : s'.mem = s.guard)
      (hacked : s'.acked = s.acked)
  | applied (hnew : ¬ s.Passed w.seq)
      (hstored : ∀ k, ¬ Stamped cfg k → SameFacts k (facts s'.stored)
          (if Carries (w.facts cfg) k then w.facts cfg else facts s.stored))
      (hdurable : s'.durable = some w.seq) (hmem : s'.mem = some w.seq)
      (hacked : s'.acked = w.seq :: s.acked)

section Step

variable {cfg : LaneConfig} {s : LaneState} {w : IngestWork} {env : Surroundings}

/-- The guard's verdict: it compares with `guard`, and caches it. -/
theorem ingestGuardStale_eq_some (h : ingestGuardStale s seq readOk = some (stale, s')) :
    s' = { s with mem := s.guard } ∧ (stale ↔ s.Passed seq) := by
  obtain ⟨_, durable, mem, _, _⟩ := s
  unfold ingestGuardStale at h
  unfold Passed LaneState.guard
  rcases mem with _ | last
  · -- nothing is cached: the durable tier is read
    cases readOk with
    | false => simp at h
    | true =>
      rcases durable with _ | last <;> obtain ⟨rfl, rfl⟩ := h
      · simp
      · simp
  · obtain ⟨rfl, rfl⟩ := h
    simp

/-- What `ingestEntity` does to the facts of the stored entity. -/
theorem mem_ingestEntity {prepared : EntityState} {stored : Option EntityState}
    (hprep : prepareFactProjection cfg w.importLane w.entity = some prepared)
    {k : String × String} (hk : ¬ Stamped cfg k) :
    let out := ingestEntity cfg w.importLane prepared stored env
    (¬ Carries (w.facts cfg) k → SameFacts k (facts out.1) (facts stored)) ∧
    (Carries (w.facts cfg) k → out.2 = none → SameFacts k (facts out.1) (w.facts cfg)) := by
  have hfacts : w.facts cfg = prepared.triples := by
    unfold IngestWork.facts
    rw [hprep]
    rfl
  have hhierarchy : ¬ Carries (if env.hierarchyOk then cfg.hierarchyTriples else []) k := by
    split
    · exact fun h => hk (.inr h)
    · rintro ⟨x, hx, -⟩
      simp at hx
  obtain ⟨hkept, hnew⟩ := @mem_mergeEntityOnLane cfg.registry _ prepared stored env.attempts k
    (fun h => hk (.inl h)) hhierarchy
  rw [hfacts]
  simp only [ingestEntity, prepareFactProjection_idem hprep]
  generalize hout : mergeEntityOnLane cfg.registry _ prepared stored env.attempts = out at hkept hnew
  obtain ⟨_, ok⟩ := out
  cases ok with
  | true => exact ⟨hkept, fun hc _ => hnew hc rfl⟩
  | false => exact ⟨hkept, fun _ h => by simp at h⟩

theorem processIngest_handled : Handled cfg s w (processIngest cfg s w env) := by
  unfold processIngest
  cases hprep : prepareFactProjection cfg w.importLane w.entity with
  | none => exact .untouched rfl rfl rfl rfl
  | some prepared =>
    rcases hstale : ingestGuardStale s w.seq env.guardReadOk with _ | ⟨stale, _⟩
    · exact .untouched rfl rfl rfl rfl
    obtain ⟨rfl, hpassed⟩ := ingestGuardStale_eq_some hstale
    cases stale with
    | true => exact .dropped (hpassed.1 rfl) rfl rfl rfl rfl
    | false =>
      have hnew : ¬ s.Passed w.seq := fun h => by simpa using hpassed.2 h
      have hmem := fun k (hk : ¬ Stamped cfg k) =>
        @mem_ingestEntity cfg w env prepared s.stored hprep k hk
      simp only
      generalize hout : ingestEntity cfg w.importLane prepared s.stored env = out at hmem
      obtain ⟨stored, err⟩ := out
      have hkept : ∀ k, ¬ Stamped cfg k → ¬ Carries (w.facts cfg) k →
          SameFacts k (facts stored) (facts s.stored) := fun k hk hc => (hmem k hk).1 hc
      rcases err with _ | _ | _ | _ | _
      · -- the merge committed, and the stamp decides
        simp only
        split
        · refine .applied hnew (fun k hk => ?_) rfl rfl rfl
          split
          · rename_i hc
            exact (hmem k hk).2 hc rfl
          · rename_i hc
            exact hkept k hk hc
        · split
          · exact .failed hnew hkept (.inr rfl) rfl rfl
          · exact .failed hnew hkept (.inl rfl) rfl rfl
      all_goals exact .failed hnew hkept (.inl rfl) rfl rfl

end Step

/-! ## The guard only rises -/

/-- What every run keeps: a cached sequence never leads the durable one,
and the guard has passed every acked message. -/
structure LaneState.Guarded (s : LaneState) : Prop where
  mem_le : ∀ g, s.mem = some g → ∃ d, s.durable = some d ∧ g ≤ d
  acked_passed : ∀ seq ∈ s.acked, s.Passed seq

section Guard

variable {s s' : LaneState}

theorem LaneState.guard_of_mem (h : s.mem = some g) : s.guard = some g := by
  simp [LaneState.guard, h]

theorem LaneState.passed_of_mem_eq (hp : s.Passed seq) (hmem : s'.mem = s.guard) :
    s'.Passed seq := by
  obtain ⟨g, hg, hle⟩ := hp
  exact ⟨g, guard_of_mem (hmem.trans hg), hle⟩

theorem Handled.passed (h : Handled cfg s w s') (hp : s.Passed seq) : s'.Passed seq := by
  cases h with
  | untouched _ hdurable hmem _ =>
    obtain ⟨g, hg, hle⟩ := hp
    refine ⟨g, ?_, hle⟩
    unfold LaneState.guard at hg ⊢
    rw [hmem, hdurable, hg]
  | dropped _ _ _ hmem _ => exact passed_of_mem_eq hp hmem
  | failed _ _ _ hmem _ => exact passed_of_mem_eq hp hmem
  | applied hnew _ _ hmem _ =>
    obtain ⟨g, hg, hle⟩ := hp
    have hlt : g < w.seq := by
      by_contra hge
      exact hnew ⟨g, hg, by omega⟩
    exact ⟨w.seq, guard_of_mem hmem, by omega⟩

theorem Handled.guarded (h : Handled cfg s w s') (hs : s.Guarded) : s'.Guarded := by
  -- the guard is cached from a tier that has it
  have hcache : ∀ g, s.guard = some g → ∃ d, s.durable = some d ∧ g ≤ d := by
    intro g hg
    unfold LaneState.guard at hg
    cases hm : s.mem with
    | none =>
      rw [hm] at hg
      exact ⟨g, by simpa using hg, le_refl g⟩
    | some m =>
      rw [hm] at hg
      obtain rfl : m = g := by simpa using hg
      exact hs.mem_le m hm
  have hacked : ∀ seq ∈ s.acked, s'.Passed seq := fun seq hseq => h.passed (hs.acked_passed seq hseq)
  cases h with
  | untouched hstored hdurable hmem ha =>
    exact ⟨fun g hg => hdurable ▸ hs.mem_le g (hmem ▸ hg), fun seq hseq => hacked seq (ha ▸ hseq)⟩
  | dropped hpassed hstored hdurable hmem ha =>
    refine ⟨fun g hg => hdurable ▸ hcache g (hmem ▸ hg), fun seq hseq => ?_⟩
    rw [ha, mem_cons] at hseq
    rcases hseq with rfl | hseq
    · exact passed_of_mem_eq hpassed hmem
    · exact hacked seq hseq
  | failed hnew hstored hdurable hmem ha =>
    refine ⟨fun g hg => ?_, fun seq hseq => hacked seq (ha ▸ hseq)⟩
    rw [hmem] at hg
    rcases hdurable with hdurable | hdurable
    · exact hdurable ▸ hcache g hg
    -- a stamp that landed all the same is of a newer message
    refine ⟨w.seq, hdurable, ?_⟩
    by_contra hlt
    exact hnew ⟨g, hg, by omega⟩
  | applied hnew hstored hdurable hmem ha =>
    refine ⟨fun g hg => ⟨w.seq, hdurable, ?_⟩, fun seq hseq => ?_⟩
    · rw [hmem, Option.some.injEq] at hg
      omega
    · rw [ha, mem_cons] at hseq
      rcases hseq with rfl | hseq
      · exact ⟨w.seq, guard_of_mem hmem, le_refl _⟩
      · exact hacked seq hseq

end Guard

/-! ## Whole runs -/

variable (cfg : LaneConfig) {entityID : String} (backlog : Backlog entityID)

/-- The message is the last of the stream that carries the key. -/
def LastCarrier (k : String × String) (w : IngestWork) : Prop :=
  w ∈ backlog.works ∧ Carries (w.facts cfg) k ∧
    ∀ w' ∈ backlog.works, w.seq < w'.seq → ¬ Carries (w'.facts cfg) k

/-- **A drop that loses nothing.** A delivery the guard has passed finds,
under each key it is the last to carry, its own facts stored. -/
def LosslessDrop (s : LaneState) : LaneEvent → Prop
  | .deliver w _ => s.Passed w.seq → ∀ k, ¬ Stamped cfg k → LastCarrier cfg backlog k w →
      SameFacts k (facts s.stored) (w.facts cfg)
  | .forget => True

/-- The stored facts are those of all messages, merged in stream order. -/
def FactsComplete (initial : Option EntityState) (s : LaneState) : Prop :=
  ∀ k, ¬ Stamped cfg k → SameFacts k (facts s.stored)
    ((backlog.works.map (IngestWork.facts cfg)).foldl mergeTriples (facts initial))

variable {cfg backlog} {s s' : LaneState} {e : LaneEvent} {k : String × String} {w : IngestWork}

theorem Backlog.eq_of_seq_eq (backlog : Backlog entityID)
    (hw : w ∈ backlog.works) (hw' : w' ∈ backlog.works) (h : w.seq = w'.seq) : w = w' := by
  have hnodup : (backlog.works.map IngestWork.seq).Nodup :=
    pairwise_map.2 (backlog.ordered.imp fun hlt => Nat.ne_of_lt hlt)
  exact inj_on_of_nodup_map hnodup hw hw' h

theorem LastCarrier.unique (hw : LastCarrier cfg backlog k w)
    (hw' : LastCarrier cfg backlog k w') : w = w' := by
  rcases Nat.lt_trichotomy w.seq w'.seq with hlt | heq | hlt
  · exact absurd hw'.2.1 (hw.2.2 w' hw'.1 hlt)
  · exact backlog.eq_of_seq_eq hw.1 hw'.1 heq
  · exact absurd hw.2.1 (hw'.2.2 w hw.1 hlt)

theorem laneStep_cases (h : laneStep cfg backlog s e = some s') :
    (∃ w env, e = .deliver w env ∧ w ∈ backlog.works ∧ Handled cfg s w s') ∨
      (e = .forget ∧ s' = { s with mem := none }) := by
  cases e with
  | deliver w env =>
    simp only [laneStep] at h
    split at h
    · rename_i hw
      rw [Option.some.injEq] at h
      exact .inl ⟨w, env, rfl, hw, h ▸ processIngest_handled⟩
    · simp at h
  | forget => exact .inr ⟨rfl, (Option.some.inj h).symm⟩

/-- Losing the cache moves the guard to the durable tier, which is not
behind it. -/
theorem LaneState.Guarded.passed_forget (hs : s.Guarded) (hp : s.Passed seq) :
    Passed { s with mem := none } seq := by
  obtain ⟨g, hg, hle⟩ := hp
  unfold LaneState.guard at hg
  cases hm : s.mem with
  | none =>
    rw [hm] at hg
    exact ⟨g, hg, hle⟩
  | some m =>
    rw [hm] at hg
    obtain rfl : m = g := by simpa using hg
    obtain ⟨d, hd, _⟩ := hs.mem_le m hm
    exact ⟨d, by simpa [LaneState.guard] using hd, by omega⟩

theorem laneStep_guarded (hs : s.Guarded) (h : laneStep cfg backlog s e = some s') :
    s'.Guarded := by
  rcases laneStep_cases h with ⟨w, _, -, -, hw⟩ | ⟨-, rfl⟩
  · exact hw.guarded hs
  · exact ⟨fun g hg => by simp at hg, fun seq hseq => hs.passed_forget (hs.acked_passed seq hseq)⟩

/-- **Beyond its last carrier a key is frozen.** Once the guard has passed
the last message that carries the key, no step changes what is stored under
it. -/
theorem laneStep_frozen (hk : ¬ Stamped cfg k) (hw : LastCarrier cfg backlog k w) (hs : s.Guarded)
    (hp : s.Passed w.seq) (h : laneStep cfg backlog s e = some s') :
    s'.Passed w.seq ∧ SameFacts k (facts s'.stored) (facts s.stored) := by
  rcases laneStep_cases h with ⟨w', _, -, hmem, hh⟩ | ⟨-, rfl⟩
  · refine ⟨hh.passed hp, ?_⟩
    -- what is still applied is newer than the last carrier
    have hnot : ¬ s.Passed w'.seq → ¬ Carries (w'.facts cfg) k := by
      intro hnew
      refine hw.2.2 w' hmem ?_
      obtain ⟨g, hg, _⟩ := hp
      by_contra hlt
      exact hnew ⟨g, hg, by omega⟩
    cases hh with
    | untouched hstored => rw [hstored]; exact fun _ _ => Iff.rfl
    | dropped _ hstored => rw [hstored]; exact fun _ _ => Iff.rfl
    | failed hnew hstored => exact hstored k hk (hnot hnew)
    | applied hnew hstored =>
      have hst := hstored k hk
      rwa [if_neg (hnot hnew)] at hst
  · exact ⟨hs.passed_forget hp, fun _ _ => Iff.rfl⟩

variable {es : List LaneEvent}

theorem run_frozen (hk : ¬ Stamped cfg k) (hw : LastCarrier cfg backlog k w) (hs : s.Guarded)
    (hp : s.Passed w.seq) (h : run (laneStep cfg backlog) s es = some s') :
    SameFacts k (facts s'.stored) (facts s.stored) := by
  have hinv := run_invariant
    (I := fun u => u.Guarded ∧ u.Passed w.seq ∧ SameFacts k (facts u.stored) (facts s.stored))
    (fun u e u' ⟨hu, hup, hsame⟩ hstep => by
      obtain ⟨hup', hsame'⟩ := laneStep_frozen hk hw hu hup hstep
      exact ⟨laneStep_guarded hu hstep, hup', fun t ht => (hsame' t ht).trans (hsame t ht)⟩)
    ⟨hs, hp, fun _ _ => Iff.rfl⟩ h
  exact hinv.2.2

/-- Under a key no message carries, the lane stores what was there. -/
theorem run_uncarried (hk : ¬ Stamped cfg k)
    (hnone : ∀ w ∈ backlog.works, ¬ Carries (w.facts cfg) k)
    (h : run (laneStep cfg backlog) s es = some s') :
    SameFacts k (facts s'.stored) (facts s.stored) := by
  refine run_invariant (I := fun u => SameFacts k (facts u.stored) (facts s.stored))
    (fun u e u' hu hstep => ?_) (fun _ _ => Iff.rfl) h
  rcases laneStep_cases hstep with ⟨w, _, -, hmem, hh⟩ | ⟨-, rfl⟩
  · cases hh with
    | untouched hstored => rwa [hstored]
    | dropped _ hstored => rwa [hstored]
    | failed _ hstored => exact fun t ht => (hstored k hk (hnone w hmem) t ht).trans (hu t ht)
    | applied _ hstored =>
      have hst := hstored k hk
      rw [if_neg (hnone w hmem)] at hst
      exact fun t ht => (hst t ht).trans (hu t ht)
  · exact hu

/-- Along lossless drops, an acked last carrier has its facts stored. -/
theorem run_acked (hk : ¬ Stamped cfg k) (hw : LastCarrier cfg backlog k w) (hs : s.Guarded)
    (hacked : s.acked = [])
    (hlossless : Along (laneStep cfg backlog) (LosslessDrop cfg backlog) s es)
    (h : run (laneStep cfg backlog) s es = some s') :
    w.seq ∈ s'.acked → SameFacts k (facts s'.stored) (w.facts cfg) := by
  suffices hinv : s'.Guarded ∧
      (w.seq ∈ s'.acked → SameFacts k (facts s'.stored) (w.facts cfg)) from hinv.2
  refine run_invariant_along
    (I := fun u => u.Guarded ∧ (w.seq ∈ u.acked → SameFacts k (facts u.stored) (w.facts cfg)))
    (C := LosslessDrop cfg backlog) ?_ ⟨hs, fun hin => by simp [hacked] at hin⟩ hlossless h
  rintro u e _ ⟨hu, hstored⟩ hdrop hstep
  refine ⟨laneStep_guarded hu hstep, fun hin => ?_⟩
  by_cases hold : w.seq ∈ u.acked
  · have hsame := (laneStep_frozen hk hw hu (hu.acked_passed _ hold) hstep).2
    exact fun t ht => (hsame t ht).trans (hstored hold t ht)
  rcases laneStep_cases hstep with ⟨w', _, rfl, hmem, hh⟩ | ⟨-, rfl⟩
  · -- a step that acks the message is a delivery of it
    have hself : ∀ {acked : List ℕ}, acked = w'.seq :: u.acked → w.seq ∈ acked → w' = w := by
      rintro _ rfl hcons
      rcases mem_cons.1 hcons with heq | hcons
      · exact backlog.eq_of_seq_eq hmem hw.1 heq.symm
      · exact absurd hcons hold
    cases hh with
    | untouched _ _ _ ha => exact absurd (ha ▸ hin) hold
    | failed _ _ _ _ ha => exact absurd (ha ▸ hin) hold
    | dropped hpassed hst _ _ ha =>
      obtain rfl := hself ha hin
      rw [hst]
      exact hdrop hpassed k hk hw
    | applied _ hst _ _ ha =>
      obtain rfl := hself ha hin
      have hnow := hst k hk
      rwa [if_pos hw.2.1] at hnow
  · exact absurd hin hold

variable (cfg backlog) in
/-- What the fold of all messages leaves under a key. -/
theorem backlog_fold (initial : Option EntityState) (k : String × String) :
    ((∀ w ∈ backlog.works, ¬ Carries (w.facts cfg) k) ∧ SameFacts k
      ((backlog.works.map (IngestWork.facts cfg)).foldl mergeTriples (facts initial))
      (facts initial)) ∨
    ∃ w, LastCarrier cfg backlog k w ∧ SameFacts k
      ((backlog.works.map (IngestWork.facts cfg)).foldl mergeTriples (facts initial))
      (w.facts cfg) := by
  cases hfind : backlog.works.reverse.find? fun w => decide (Carries (w.facts cfg) k) with
  | none =>
    have hnone : ∀ w ∈ backlog.works, ¬ Carries (w.facts cfg) k := by
      simpa [List.find?_eq_none] using hfind
    refine .inl ⟨hnone, ?_⟩
    rintro t rfl
    refine mem_foldl_mergeTriples_of_not_carries fun newer hn => ?_
    obtain ⟨w, hw, rfl⟩ := List.mem_map.1 hn
    exact hnone w hw
  | some w =>
    obtain ⟨hcarries, after, before, hsplit, hafter⟩ := List.find?_eq_some_iff_append.1 hfind
    have hworks : backlog.works = before.reverse ++ w :: after.reverse := by
      simpa using congrArg List.reverse hsplit
    have hlast : ∀ w' ∈ after, ¬ Carries (w'.facts cfg) k := by simpa using hafter
    refine .inr ⟨w, ⟨by simp [hworks], by simpa using hcarries, fun w' hw' hlt => ?_⟩, ?_⟩
    · -- what is newer than the last carrier stands behind it
      have hord := backlog.ordered
      rw [hworks, pairwise_append] at hord
      rw [hworks, mem_append, mem_cons] at hw'
      rcases hw' with hbefore | rfl | hmem
      · have := hord.2.2 w' hbefore w (by simp)
        omega
      · omega
      · exact hlast w' (by simpa using hmem)
    · rintro t rfl
      rw [hworks, map_append, map_cons]
      refine mem_foldl_mergeTriples_of_last (by simpa using hcarries) fun newer hn => ?_
      obtain ⟨w', hw', rfl⟩ := List.mem_map.1 hn
      exact hlast w' (by simpa using hw')

/-- **When the lane loses nothing.** In every run that ends with every
message acked, the stored facts are those of all messages merged in stream
order exactly if every delivery the guard had passed found the facts it was
the last to carry already stored. -/
theorem facts_complete_iff {initial : Option EntityState} {es : List LaneEvent}
    (h : run (laneStep cfg backlog) { stored := initial } es = some s')
    (hacked : ∀ w ∈ backlog.works, w.seq ∈ s'.acked) :
    FactsComplete cfg backlog initial s' ↔
      Along (laneStep cfg backlog) (LosslessDrop cfg backlog) { stored := initial } es := by
  have hfresh : Guarded { stored := initial } :=
    ⟨fun g hg => by simp at hg, fun seq hseq => by simp at hseq⟩
  constructor
  · intro hcomplete
    -- a passed delivery sees the key frozen, hence as the complete end has it
    suffices hall : ∀ s : LaneState, s.Guarded → run (laneStep cfg backlog) s es = some s' →
        Along (laneStep cfg backlog) (LosslessDrop cfg backlog) s es from hall _ hfresh h
    clear h hfresh
    induction es with
    | nil => exact fun _ _ _ => trivial
    | cons e es ih =>
      intro s hs hrun
      obtain ⟨u, hstep, hrest⟩ := run_cons_eq_some.1 hrun
      refine ⟨?_, fun u' hu' => ?_⟩
      · cases e with
        | forget => trivial
        | deliver w env =>
          intro hpassed k hk hw t ht
          rcases backlog_fold cfg backlog initial k with
            ⟨hnone, -⟩ | ⟨w', hw', hfold⟩
          · exact absurd hw.2.1 (hnone w hw.1)
          · obtain rfl : w' = w := hw'.unique hw
            rw [← hfold t ht, ← hcomplete k hk t ht]
            exact (run_frozen hk hw hs hpassed hrun t ht).symm
      · obtain rfl : u = u' := Option.some.inj (hstep.symm.trans hu')
        exact ih u (laneStep_guarded hs hstep) hrest
  · intro hlossless k hk t ht
    rcases backlog_fold cfg backlog initial k with
      ⟨hnone, hfold⟩ | ⟨w, hw, hfold⟩
    · rw [hfold t ht]
      exact run_uncarried hk hnone h t ht
    · rw [hfold t ht]
      exact run_acked hk hw hfresh rfl hlossless h (hacked w hw.1) t ht

/-! ## A transient failure that loses a fact -/

/-- A lane that admits every candidate, without hierarchy. -/
def openLane : LaneConfig where
  registry := none
  hierarchyTriples := []
  validateEntityID := fun _ => true
  authorizeSubject := fun _ _ => true
  validateEntityStateContract := fun _ => true

def positionArrival : EntityState :=
  { batteryArrival with
    triples := [{ subject := "", predicate := "robotics.position.altitude", object := .json "120" }] }

/-- Two messages of one stream to one drone, each with its own predicate. -/
def droneBacklog : Backlog batteryArrival.id where
  works := [⟨batteryArrival, 1, false⟩, ⟨positionArrival, 2, false⟩]
  addressed := by decide
  ordered := by decide

/-- Every step of the delivery goes through. -/
def allOk : Surroundings := { attempts := [⟨1, 1, .committed⟩] }

/-- The merge does not reach the bucket. -/
def mergeDown : Surroundings := { attempts := [⟨1, 1, .failed false⟩] }

/-- The first message fails once and is redelivered before the second:
nothing is lost. -/
theorem facts_complete_after_early_redelivery :
    ∃ s', run (laneStep openLane droneBacklog) { stored := none }
        [.deliver ⟨batteryArrival, 1, false⟩ mergeDown, .deliver ⟨batteryArrival, 1, false⟩ allOk,
          .forget, .deliver ⟨positionArrival, 2, false⟩ allOk] = some s' ∧
      FactsComplete openLane droneBacklog none s' := by
  refine' ⟨_, ?run, (facts_complete_iff ?run ?_).2 ?_⟩
  · rfl
  · decide
  · -- no delivery meets a guard that has passed it
    refine ⟨?_, fun s₁ h₁ => ⟨?_, fun s₂ h₂ => ⟨trivial, fun s₃ h₃ => ⟨?_, fun _ _ => trivial⟩⟩⟩⟩
    · rintro ⟨g, hg, -⟩
      simp [LaneState.guard] at hg
    · cases h₁
      rintro ⟨g, hg, -⟩
      cases hg
    · cases h₁
      cases h₂
      cases h₃
      rintro ⟨g, hg, hle⟩
      cases hg
      exact absurd hle (by decide)

/-- **The lane loses facts.** The first message fails in the bucket and is
turned back, the second is applied, and the first is then dropped as stale
and acked: its battery level is nowhere, though both messages are acked and
neither is terminated. -/
theorem fact_lost_after_late_redelivery :
    ∃ s', run (laneStep openLane droneBacklog) { stored := none }
        [.deliver ⟨batteryArrival, 1, false⟩ mergeDown, .deliver ⟨positionArrival, 2, false⟩ allOk,
          .deliver ⟨batteryArrival, 1, false⟩ allOk] = some s' ∧
      (∀ w ∈ droneBacklog.works, w.seq ∈ s'.acked) ∧ s'.termed = [] ∧
      ∃ t ∈ (droneBacklog.works.map (IngestWork.facts openLane)).foldl mergeTriples [],
        ¬ Stamped openLane t.key ∧ t ∉ facts s'.stored := by
  refine ⟨_, rfl, ?_, rfl, ?_⟩
  · decide
  · refine ⟨{ subject := batteryArrival.id, predicate := "robotics.battery.level"
              object := .json "42" }, by decide, ?_, fun hmem => ?_⟩
    · rintro (h | ⟨x, hx, -⟩)
      · exact absurd h (by decide)
      · simp [openLane] at hx
    · exact absurd (List.mem_map_of_mem (f := Triple.predicate) hmem) (by decide)

end SemStreams.GraphIngest
