import SemStreams.Lib.KeepFirst
import SemStreams.Graph.Entity
/-!
# graph-ingest — merging an arrival under compare-and-set retry

`mergeEntityOnLane` hands the bucket a closure that computes the value to
store from the resident value. The bucket runs it once per attempt, and a
lost compare-and-set runs it again. The closure works on the incoming
entity itself: its birth branch appends the hierarchy triples and the
indexing profile to the entity's own triples, and its merge branch may
compact them in place, when `mergeTriples` returns the incoming slice
because the resident holds no triples.

So the value an attempt computes depends on the attempts before it.
`retry_pure_iff` says exactly when it does not.
-/

namespace SemStreams.GraphIngest

open SemStreams.Graph List

/-- `vocabulary.EntityIndexingProfile`. -/
def entityIndexingProfile : String := "entity.indexing.profile"

/-- `vocabulary.IndexingProfileControl`. -/
def indexingProfileControl : String := "control"

/-- The floor profiles of the registered payload types: `none` for a
component without a registry, `some none` for a type it does not hold. -/
abbrev PayloadRegistry := Option (MessageType → Option String)

/-- The floor registered with a type, and whether the type declared one. -/
def registeredIndexingProfile (registry : PayloadRegistry) (mt : MessageType) : String × Bool :=
  match registry with
  | none => (indexingProfileControl, false)
  | some indexingProfileFor =>
    match indexingProfileFor mt with
    | none => (indexingProfileControl, false)
    | some floor => if floor = "" then (indexingProfileControl, false) else (floor, true)

def isProfile (t : Triple) : Bool := t.predicate == entityIndexingProfile

def hasIndexingProfileTriple (triples : List Triple) : Bool := triples.any isProfile

def triplesWithoutPredicate (triples : List Triple) (predicate : String) : List Triple :=
  triples.filter fun t => t.predicate ≠ predicate

/-- The triple `appendIndexingProfileTriple` appends. -/
def indexingProfileTriple (id profile : String) (now : ℕ) : Triple where
  subject := id
  predicate := entityIndexingProfile
  object := .text profile
  source := "graph-ingest-indexing-profile"
  timestamp := now
  confidence := 1

/-- `reconcileIndexingProfile`: the first profile triple stays, later ones
go, and where there is none the registered floor is appended. -/
def reconcileIndexingProfile (registry : PayloadRegistry) (now : ℕ) (e : EntityState) :
    EntityState :=
  let filtered := keepFirst isProfile false e.triples
  if hasIndexingProfileTriple e.triples then { e with triples := filtered }
  else
    { e with
      triples := filtered ++
        [indexingProfileTriple e.id (registeredIndexingProfile registry e.messageType).1 now] }

/-- What one attempt reads from its surroundings: the resident value
(`none` where the key is absent) and the clock, read once for a stamp and
once for `UpdatedAt`. -/
structure Reading where
  current : Option EntityState
  stampedAt : ℕ
  updatedAt : ℕ

/-- The merge branch before it reconciles the profile: the incoming
triples win per subject and predicate, except that a resident profile is
never overridden. -/
def mergeInto (existing entity : EntityState) : EntityState :=
  let newer :=
    if hasIndexingProfileTriple existing.triples then
      triplesWithoutPredicate entity.triples entityIndexingProfile
    else entity.triples
  { existing with
    triples := mergeTriples existing.triples newer
    messageType := entity.messageType
    storageRef := entity.storageRef <|> existing.storageRef }

/-- The update closure of `mergeEntityOnLane`: the value to store, and the
incoming entity as the closure leaves it. -/
def updateFn (registry : PayloadRegistry) (hierarchyTriples : List Triple)
    (entity : EntityState) (r : Reading) : EntityState × EntityState :=
  match r.current with
  | none =>
    -- birth: the stamps go onto the incoming entity, which is then stored verbatim
    let born := reconcileIndexingProfile registry r.stampedAt
      { entity with triples := entity.triples ++ hierarchyTriples }
    (born, born)
  | some existing =>
    let merged := reconcileIndexingProfile registry r.stampedAt (mergeInto existing entity)
    -- a resident without triples makes `mergeTriples` return the incoming slice itself, and
    -- the compaction above then runs on the incoming entity's own array
    let left :=
      if existing.triples = [] then
        overwritten (keepFirst isProfile false entity.triples) entity.triples
      else entity.triples
    ({ merged with version := existing.version + 1, updatedAt := r.updatedAt },
      { entity with triples := left })

/-- How an attempt of `UpdateWithRetryRev` ends: its read fails, its write
loses the compare-and-set (or fails), or its write commits. -/
inductive Outcome
  | getFailed
  | lost
  | committed
deriving DecidableEq

structure Attempt where
  reading : Reading
  outcome : Outcome

/-- `UpdateWithRetryRev` around the closure: the value committed, `none`
when `maxAttempts` attempts or the script of outcomes ran out first. -/
def updateWithRetry (registry : PayloadRegistry) (hierarchyTriples : List Triple) :
    ℕ → EntityState → List Attempt → Option EntityState
  | 0, _, _ => none
  | _ + 1, _, [] => none
  | n + 1, entity, a :: as =>
    match a.outcome with
    | .getFailed => updateWithRetry registry hierarchyTriples n entity as
    | .lost =>
      updateWithRetry registry hierarchyTriples n
        (updateFn registry hierarchyTriples entity a.reading).2 as
    | .committed => some (updateFn registry hierarchyTriples entity a.reading).1

/-! ## What an attempt reads of the incoming triples -/

variable {registry : PayloadRegistry} {hierarchyTriples : List Triple} {e e' : EntityState}
  {r : Reading}

/-- The incoming triples as far as any attempt looks at them: every triple
but the superfluous profile triples. -/
def core (triples : List Triple) : List Triple := keepFirst isProfile false triples

/-- Two states of the incoming entity between which no attempt
distinguishes: they differ in superfluous profile triples at most. -/
def SameCore (e e' : EntityState) : Prop :=
  core e.triples = core e'.triples ∧ { e with triples := [] } = { e' with triples := [] }

theorem triplesWithoutPredicate_eq (l : List Triple) :
    triplesWithoutPredicate l entityIndexingProfile = l.filter fun t => !isProfile t := by
  unfold triplesWithoutPredicate isProfile
  congr 1
  funext t
  by_cases h : t.predicate = entityIndexingProfile <;> simp [h]

variable {l : List Triple}

theorem isProfile_eq_false (h : hasIndexingProfileTriple l = false) :
    ∀ t ∈ l, isProfile t = false := by
  intro t ht
  exact Bool.eq_false_iff.2 (List.any_eq_false.1 h t ht)

theorem hasIndexingProfileTriple_core (l : List Triple) :
    hasIndexingProfileTriple (core l) = hasIndexingProfileTriple l :=
  any_keepFirst

variable {l' : List Triple}

theorem hasIndexingProfileTriple_congr (h : core l = core l') :
    hasIndexingProfileTriple l = hasIndexingProfileTriple l' := by
  rw [← hasIndexingProfileTriple_core l, h, hasIndexingProfileTriple_core]

variable (now : ℕ)

/-- Reconciling keeps the core and appends the floor where it has no
profile. -/
theorem reconcile_eq (e : EntityState) : reconcileIndexingProfile registry now e =
      { e with
        triples := core e.triples ++ if hasIndexingProfileTriple e.triples then [] else
          [indexingProfileTriple e.id (registeredIndexingProfile registry e.messageType).1 now] } := by
  unfold reconcileIndexingProfile core
  split
  · simp
  · rfl

theorem reconcile_congr (h : SameCore e e') :
    reconcileIndexingProfile registry now e = reconcileIndexingProfile registry now e' := by
  obtain ⟨hcore, hframe⟩ := h
  rw [reconcile_eq, reconcile_eq, hcore, hasIndexingProfileTriple_congr hcore]
  simp only [EntityState.mk.injEq, true_and] at hframe ⊢
  obtain ⟨hid, hrest⟩ := hframe
  rw [hid, hrest.2.1]
  exact ⟨rfl, rfl, hrest.1, rfl, hrest.2.2⟩

/-- Appending to two lists with one core leaves one core. -/
theorem core_append_congr (h : core l = core l') (ys : List Triple) :
    core (l ++ ys) = core (l' ++ ys) := by
  have hany : l.any isProfile = l'.any isProfile := hasIndexingProfileTriple_congr h
  unfold core at h ⊢
  rw [keepFirst_append, keepFirst_append, h, hany]

variable {t : Triple}

/-- A triple that is no profile conflicts with a list exactly if it
conflicts with the list's core. -/
theorem conflicts_congr (h : core l = core l') (ht : isProfile t = false) :
    conflicts l t = conflicts l' t := by
  have hiff : ∀ m : List Triple, conflicts m t = conflicts (m.filter fun x => !isProfile x) t := by
    intro m
    rw [Bool.eq_iff_iff, conflicts_iff, conflicts_iff]
    constructor
    · rintro ⟨n, hn, hkey⟩
      refine ⟨n, mem_filter.2 ⟨hn, ?_⟩, hkey⟩
      have hp : n.predicate = t.predicate := congrArg Prod.snd hkey
      simpa [isProfile, hp] using ht
    · rintro ⟨n, hn, hkey⟩
      exact ⟨n, mem_of_mem_filter hn, hkey⟩
  have hfilter : (l.filter fun x => !isProfile x) = l'.filter fun x => !isProfile x := by
    have hf := congrArg (List.filter fun x => !isProfile x) h
    simpa only [core, filter_keepFirst] using hf
  rw [hiff l, hiff l', hfilter]

theorem sameCore_mergeInto (existing : EntityState) (h : SameCore e e') :
    SameCore (mergeInto existing e) (mergeInto existing e') := by
  obtain ⟨hcore, hframe⟩ := h
  simp only [EntityState.mk.injEq, true_and] at hframe
  refine ⟨?_, by simp only [mergeInto, hframe.2.1, hframe.2.2.1]⟩
  simp only [mergeInto]
  cases hex : hasIndexingProfileTriple existing.triples with
  | true =>
    -- the incoming profile is dropped altogether
    have hf := congrArg (List.filter fun x => !isProfile x) hcore
    simp only [core, filter_keepFirst] at hf
    simp [triplesWithoutPredicate_eq, hf]
  | false =>
    -- the resident brings no profile, so its triples pass as they are
    have hnone := isProfile_eq_false hex
    have hkept : (existing.triples.filter fun t => !conflicts e.triples t) =
        existing.triples.filter fun t => !conflicts e'.triples t :=
      filter_congr fun t ht => by rw [conflicts_congr hcore (hnone t ht)]
    simp only [Bool.false_eq_true, if_false, mergeTriples_eq, hkept]
    exact core_append_congr hcore _

/-- **An attempt reads the core only.** Its value is the same for two
states of the incoming entity with one core. -/
theorem updateFn_congr (h : SameCore e e') :
    (updateFn registry hierarchyTriples e r).1 = (updateFn registry hierarchyTriples e' r).1 := by
  unfold updateFn
  cases hc : r.current with
  | none =>
    refine reconcile_congr r.stampedAt ⟨core_append_congr h.1 hierarchyTriples, ?_⟩
    simpa only using h.2
  | some existing =>
    simp only
    rw [reconcile_congr r.stampedAt (sameCore_mergeInto existing h)]

/-- And it reads all of it: two states that every attempt treats alike,
whatever it reads, have one core. A resident without triples shows the
incoming triples themselves, with a stamp that carries the clock. -/
theorem core_eq_of_updateFn
    (h : ∀ r, (updateFn registry hierarchyTriples e r).1 =
      (updateFn registry hierarchyTriples e' r).1) :
    core e.triples = core e'.triples := by
  have hempty : ∀ now : ℕ, core e.triples ++ (if hasIndexingProfileTriple e.triples then [] else
        [indexingProfileTriple "" (registeredIndexingProfile registry e.messageType).1 now]) =
      core e'.triples ++ (if hasIndexingProfileTriple e'.triples then [] else
        [indexingProfileTriple "" (registeredIndexingProfile registry e'.messageType).1 now]) := by
    intro now
    have hr := congrArg EntityState.triples
      (h ⟨some ⟨"", [], none, ⟨"", "", ""⟩, 0, 0⟩, now, 0⟩)
    simpa [updateFn, mergeInto, reconcile_eq, mergeTriples, hasIndexingProfileTriple] using hr
  have h₀ := hempty 0
  have h₁ := hempty 1
  cases he : hasIndexingProfileTriple e.triples with
  | true =>
    cases he' : hasIndexingProfileTriple e'.triples with
    | true => simpa [he, he'] using h₀
    | false =>
      simp only [he, he', if_true, Bool.false_eq_true, if_false, append_nil] at h₀ h₁
      rw [h₀] at h₁
      simp [indexingProfileTriple] at h₁
  | false =>
    cases he' : hasIndexingProfileTriple e'.triples with
    | true =>
      simp only [he, he', if_true, Bool.false_eq_true, if_false, append_nil] at h₀ h₁
      rw [← h₀] at h₁
      simp [indexingProfileTriple] at h₁
    | false =>
      simp only [he, he', Bool.false_eq_true, if_false] at h₀
      exact (append_inj' h₀ rfl).1

/-- **What an attempt stores, fact by fact.** Under a key that is neither
the profile's nor one of the hierarchy's, the value holds the incoming
facts where the incoming entity carries the key, and the resident ones
elsewhere. -/
theorem mem_updateFn (hprofile : isProfile t = false)
    (hhierarchy : ¬ Carries hierarchyTriples t.key) :
    t ∈ (updateFn registry hierarchyTriples e r).1.triples ↔
      if Carries e.triples t.key then t ∈ e.triples
      else ∃ existing, r.current = some existing ∧ t ∈ existing.triples := by
  have hstamp : ∀ id profile now, t ≠ indexingProfileTriple id profile now := by
    rintro id profile now rfl
    simp [isProfile, indexingProfileTriple] at hprofile
  have hreconcile : ∀ e' : EntityState,
      t ∈ (reconcileIndexingProfile registry r.stampedAt e').triples ↔ t ∈ e'.triples := by
    intro e'
    rw [reconcile_eq]
    simp only [mem_append, core, mem_keepFirst_iff hprofile]
    split <;> simp [hstamp]
  unfold updateFn
  cases hc : r.current with
  | none =>
    have hnot : t ∉ hierarchyTriples := fun ht => hhierarchy ⟨t, ht, rfl⟩
    simp only [hreconcile, mem_append, hnot, or_false, reduceCtorEq, false_and, exists_false]
    split
    · rfl
    · rename_i h
      simp only [iff_false]
      exact fun ht => h ⟨t, ht, rfl⟩
  | some existing =>
    simp only [hreconcile, mergeInto, mem_mergeTriples, Option.some.injEq, exists_eq_left']
    -- dropping the incoming profile changes nothing under this key
    have hdrop : ∀ x : Triple, x.key = t.key → (x ∈ triplesWithoutPredicate e.triples
        entityIndexingProfile ↔ x ∈ e.triples) := by
      intro x hx
      have hp : isProfile x = false := by
        have hpred : x.predicate = t.predicate := congrArg Prod.snd hx
        simpa [isProfile, hpred] using hprofile
      rw [triplesWithoutPredicate_eq, mem_filter]
      simp [hp]
    have hcarries : Carries (triplesWithoutPredicate e.triples entityIndexingProfile) t.key ↔
        Carries e.triples t.key := by
      constructor
      · rintro ⟨x, hx, hk⟩
        exact ⟨x, (hdrop x hk).1 hx, hk⟩
      · rintro ⟨x, hx, hk⟩
        exact ⟨x, (hdrop x hk).2 hx, hk⟩
    split
    · simp only [hcarries, hdrop t rfl]
    · rfl

/-! ## What an attempt leaves of the incoming triples -/

/-- Whatever an attempt leaves on the incoming entity, its own facts stand:
outside the profile and the hierarchy, it carries what it carried. -/
theorem mem_updateFn_left (hprofile : isProfile t = false)
    (hhierarchy : ¬ Carries hierarchyTriples t.key) :
    t ∈ (updateFn registry hierarchyTriples e r).2.triples ↔ t ∈ e.triples := by
  cases hc : r.current with
  | none =>
    -- a birth leaves what it stores
    have hstored : (updateFn registry hierarchyTriples e r).2 =
        (updateFn registry hierarchyTriples e r).1 := by
      simp only [updateFn, hc]
    rw [hstored, mem_updateFn hprofile hhierarchy, hc]
    split
    · rfl
    · rename_i h
      simp only [reduceCtorEq, false_and, exists_false, false_iff]
      exact fun ht => h ⟨t, ht, rfl⟩
  | some existing =>
    simp only [updateFn, hc]
    split
    · rw [overwritten, mem_append, mem_keepFirst_iff hprofile]
      constructor
      · rintro (h | h)
        · exact h
        · exact mem_of_mem_drop h
      · exact .inl
    · rfl

/-- **A reading that leaves no trace.** A lost birth leaves none exactly if
it had nothing to add: the incoming entity declares a profile, and the
hierarchy has nothing but profile triples. A lost merge leaves none except
into a resident without triples, where the superfluous profile triples of
the incoming entity have to stand at its end. -/
def HarmlessReading (hierarchyTriples triples : List Triple) (r : Reading) : Prop :=
  match r.current with
  | none => hasIndexingProfileTriple triples = true ∧ ∀ t ∈ hierarchyTriples, isProfile t = true
  | some existing =>
    existing.triples = [] → ∀ t ∈ triples.drop (core triples).length, isProfile t = true

@[simp] theorem updateFn_snd_frame :
    { (updateFn registry hierarchyTriples e r).2 with triples := [] } = { e with triples := [] } := by
  unfold updateFn
  cases r.current with
  | none => simp only [reconcile_eq]
  | some existing => rfl

theorem core_core (l : List Triple) : core (core l) = core l := keepFirst_keepFirst

theorem core_append_of_profile (h : hasIndexingProfileTriple l) :
    core (l ++ ys) = core l ++ ys.filter fun t => !isProfile t := by
  unfold core
  rw [keepFirst_append, show l.any isProfile from h, Bool.or_true, keepFirst_true]

/-- A lost birth appends to the core: the hierarchy, and the floor where
there is no profile. -/
theorem core_birth (hc : r.current = none) :
    core (updateFn registry hierarchyTriples e r).2.triples =
      core e.triples ++
        (keepFirst isProfile (hasIndexingProfileTriple e.triples) hierarchyTriples ++
          if hasIndexingProfileTriple (e.triples ++ hierarchyTriples) then [] else
            [indexingProfileTriple e.id
              (registeredIndexingProfile registry e.messageType).1 r.stampedAt]) := by
  have happ : core (e.triples ++ hierarchyTriples) = core e.triples ++
      keepFirst isProfile (hasIndexingProfileTriple e.triples) hierarchyTriples := by
    unfold core
    rw [keepFirst_append, Bool.false_or]
    rfl
  unfold updateFn
  simp only [hc, reconcile_eq]
  cases hp : hasIndexingProfileTriple (e.triples ++ hierarchyTriples) with
  | true => simp [core_core, ← happ]
  | false =>
    -- nothing was dropped, and the stamp is the first profile
    have hnone := isProfile_eq_false hp
    have hcore : core (e.triples ++ hierarchyTriples) = e.triples ++ hierarchyTriples :=
      keepFirst_of_none hnone
    have hstamp : ∀ t, isProfile t →
        core (e.triples ++ hierarchyTriples ++ [t]) = e.triples ++ hierarchyTriples ++ [t] := by
      intro t ht
      have hany : (e.triples ++ hierarchyTriples).any isProfile = false := hp
      unfold core
      rw [keepFirst_append, keepFirst_of_none hnone, hany]
      simp [keepFirst, ht]
    simp only [Bool.false_eq_true, if_false]
    rw [hcore, hstamp _ (by simp [isProfile, indexingProfileTriple]), ← append_assoc, ← happ, hcore]

/-- A lost merge appends to the core what the compaction in place left
behind it. -/
theorem core_merge (hc : r.current = some existing) :
    core (updateFn registry hierarchyTriples e r).2.triples =
      core e.triples ++ if existing.triples = [] then
        (e.triples.drop (core e.triples).length).filter fun t => !isProfile t else [] := by
  unfold updateFn
  simp only [hc]
  split
  · cases hp : hasIndexingProfileTriple e.triples with
    | true =>
      have hcp : hasIndexingProfileTriple (core e.triples) := by
        rw [hasIndexingProfileTriple_core, hp]
      exact (core_append_of_profile hcp).trans (by rw [core_core]; rfl)
    | false =>
      have hnone := isProfile_eq_false hp
      have hcore : core e.triples = e.triples := keepFirst_of_none hnone
      have hsame : overwritten (keepFirst isProfile false e.triples) e.triples = e.triples := by
        rw [overwritten, keepFirst_of_none hnone, drop_length, append_nil]
      rw [hsame, hcore]
      simp
  · simp

/-- The core only grows. -/
theorem core_prefix_updateFn :
    core e.triples <+: core (updateFn registry hierarchyTriples e r).2.triples := by
  cases hc : r.current with
  | none =>
    rw [core_birth hc]
    exact prefix_append _ _
  | some existing =>
    rw [core_merge hc]
    exact prefix_append _ _

theorem keepFirst_eq_nil_iff :
    keepFirst isProfile kept l = [] ↔ l = [] ∨ (kept ∧ ∀ t ∈ l, isProfile t) := by
  cases kept with
  | true => simp only [keepFirst_true, filter_eq_nil_iff, true_and]; grind
  | false =>
    cases l with
    | nil => simp
    | cons t l =>
      rw [keepFirst_cons]
      split <;> simp

/-- **An attempt leaves the core alone exactly if its reading is harmless.** -/
theorem core_updateFn_eq_iff :
    core (updateFn registry hierarchyTriples e r).2.triples = core e.triples ↔
      HarmlessReading hierarchyTriples e.triples r := by
  unfold HarmlessReading
  cases hc : r.current with
  | none =>
    rw [core_birth hc, append_right_eq_self, append_eq_nil_iff, keepFirst_eq_nil_iff]
    simp only [hasIndexingProfileTriple, any_append]
    constructor
    · rintro ⟨hnil | ⟨hp, hall⟩, hstamp⟩
      · -- an empty hierarchy leaves the stamp, which the declared profile avoids
        subst hnil
        refine ⟨?_, by simp⟩
        by_contra hp
        simp [hp] at hstamp
      · exact ⟨hp, hall⟩
    · rintro ⟨hp, hall⟩
      exact ⟨.inr ⟨hp, hall⟩, by simp [hp]⟩
  | some existing =>
    rw [core_merge hc, append_right_eq_self]
    by_cases hnil : existing.triples = []
    · simp [hnil, filter_eq_nil_iff]
    · simp [hnil]

/-! ## Whole retry histories -/

variable (registry) (hierarchyTriples)

/-- The incoming entity as a history of attempts leaves it. -/
def leftBy : EntityState → List Attempt → EntityState
  | e, [] => e
  | e, a :: as =>
    match a.outcome with
    | .getFailed => leftBy e as
    | _ => leftBy (updateFn registry hierarchyTriples e a.reading).2 as

/-- Every closure run of a history leaves no trace on the incoming entity
it runs on. -/
def Harmless : EntityState → List Attempt → Prop
  | _, [] => True
  | e, a :: as =>
    match a.outcome with
    | .getFailed => Harmless e as
    | _ => HarmlessReading hierarchyTriples e.triples a.reading ∧
        Harmless (updateFn registry hierarchyTriples e a.reading).2 as

variable {registry hierarchyTriples} {lost : List Attempt} {n : ℕ}

/-- After lost attempts the committing one works on what they left. -/
theorem updateWithRetry_append (hlost : ∀ a ∈ lost, a.outcome ≠ .committed)
    (hlen : lost.length < n) (r : Reading) :
    updateWithRetry registry hierarchyTriples n e (lost ++ [⟨r, .committed⟩]) =
      some (updateFn registry hierarchyTriples (leftBy registry hierarchyTriples e lost) r).1 := by
  induction lost generalizing e n with
  | nil =>
    obtain ⟨m, rfl⟩ : ∃ m, n = m + 1 := ⟨n - 1, by simp at hlen; omega⟩
    rfl
  | cons a as ih =>
    obtain ⟨m, rfl⟩ : ∃ m, n = m + 1 := ⟨n - 1, by simp at hlen; omega⟩
    have has : ∀ b ∈ as, b.outcome ≠ .committed := fun b hb => hlost b (by simp [hb])
    have hm : as.length < m := by simpa using hlen
    cases ho : a.outcome with
    | getFailed => simpa [updateWithRetry, leftBy, ho] using ih has hm
    | lost => simpa [updateWithRetry, leftBy, ho] using ih has hm
    | committed => exact absurd ho (hlost a (by simp))

theorem core_prefix_leftBy :
    core e.triples <+: core (leftBy registry hierarchyTriples e lost).triples := by
  induction lost generalizing e with
  | nil => exact prefix_rfl
  | cons a as ih =>
    unfold leftBy
    split
    · exact ih
    · exact core_prefix_updateFn.trans ih

theorem leftBy_frame :
    { leftBy registry hierarchyTriples e lost with triples := [] } = { e with triples := [] } := by
  induction lost generalizing e with
  | nil => rfl
  | cons a as ih =>
    unfold leftBy
    split
    · exact ih
    · exact ih.trans updateFn_snd_frame

/-- A history leaves the core alone exactly if it is harmless: the core
only grows, so what one attempt added no later one takes away. -/
theorem core_leftBy_eq_iff :
    core (leftBy registry hierarchyTriples e lost).triples = core e.triples ↔
      Harmless registry hierarchyTriples e lost := by
  induction lost generalizing e with
  | nil => simp [leftBy, Harmless]
  | cons a as ih =>
    obtain ⟨u, hu⟩ : ∃ u, (updateFn registry hierarchyTriples e a.reading).2 = u := ⟨_, rfl⟩
    have hstep : core (leftBy registry hierarchyTriples u as).triples = core e.triples ↔
        HarmlessReading hierarchyTriples e.triples a.reading ∧
          Harmless registry hierarchyTriples u as := by
      rw [← @core_updateFn_eq_iff registry, ← ih, hu]
      constructor
      · intro h
        have hfirst : core e.triples <+: core u.triples := hu ▸ core_prefix_updateFn
        have hmid : core u.triples <+: core e.triples := h ▸ core_prefix_leftBy
        have heq := hmid.eq_of_length_le hfirst.length_le
        exact ⟨heq, h.trans heq.symm⟩
      · rintro ⟨h₁, h₂⟩
        exact h₂.trans h₁
    unfold leftBy Harmless
    cases a.outcome with
    | getFailed => exact ih
    | lost | committed => exact hu ▸ hstep

/-- **When a retry is pure.** The value committed after a history of lost
attempts is, whatever the committing attempt reads, the value it would
commit as the first attempt, exactly if the history is harmless. -/
theorem retry_pure_iff (hlost : ∀ a ∈ lost, a.outcome ≠ .committed) (hlen : lost.length < n) :
    (∀ r, updateWithRetry registry hierarchyTriples n e (lost ++ [⟨r, .committed⟩]) =
        updateWithRetry registry hierarchyTriples n e [⟨r, .committed⟩]) ↔
      Harmless registry hierarchyTriples e lost := by
  have hfirst : ∀ r, updateWithRetry registry hierarchyTriples n e [⟨r, .committed⟩] =
      some (updateFn registry hierarchyTriples e r).1 := by
    obtain ⟨m, rfl⟩ : ∃ m, n = m + 1 := ⟨n - 1, by omega⟩
    exact fun r => rfl
  rw [← core_leftBy_eq_iff]
  constructor
  · intro h
    have hall : ∀ r, (updateFn registry hierarchyTriples
        (leftBy registry hierarchyTriples e lost) r).1 =
          (updateFn registry hierarchyTriples e r).1 := by
      intro r
      have hr := h r
      rw [updateWithRetry_append hlost hlen, hfirst, Option.some.injEq] at hr
      exact hr
    exact core_eq_of_updateFn hall
  · intro hcore r
    rw [updateWithRetry_append hlost hlen, hfirst, updateFn_congr ⟨hcore, leftBy_frame⟩]

/-- A battery reading of one drone. -/
def batteryArrival : EntityState where
  id := "acme.dep1.fleet.robotics.drone.1"
  triples := [{ subject := "acme.dep1.fleet.robotics.drone.1"
                predicate := "robotics.battery.level", object := .json "42" }]
  storageRef := none
  messageType := ⟨"robotics", "battery", "v1"⟩
  version := 1
  updatedAt := 0

/-- The drone as another writer created it meanwhile. -/
def droneResident : EntityState where
  id := "acme.dep1.fleet.robotics.drone.1"
  triples := [{ subject := "acme.dep1.fleet.robotics.drone.1"
                predicate := "entity.indexing.profile", object := .text "content" }]
  storageRef := none
  messageType := ⟨"robotics", "drone", "v1"⟩
  version := 3
  updatedAt := 0

/-- The container membership the hierarchy inference returns for it. -/
def droneHierarchy : List Triple :=
  [{ subject := "acme.dep1.fleet.robotics.drone.1", predicate := "hierarchy.type.member"
     object := .text "acme.dep1.fleet.robotics.drone.group" }]

/-- A lost merge into the resident is harmless, and the retry commits what
a first attempt would. -/
theorem retry_pure_after_lost_merge : updateWithRetry none droneHierarchy 3 batteryArrival
        ([⟨⟨some droneResident, 1, 1⟩, .lost⟩] ++ [⟨⟨none, 2, 2⟩, .committed⟩]) =
      updateWithRetry none droneHierarchy 3 batteryArrival [⟨⟨none, 2, 2⟩, .committed⟩] := by
  have hlost : Harmless none droneHierarchy batteryArrival [⟨⟨some droneResident, 1, 1⟩, .lost⟩] :=
    ⟨by simp [HarmlessReading, droneResident], trivial⟩
  exact (retry_pure_iff (by decide) (by decide)).2 hlost _

/-- **A lost birth is not.** The arrival finds the key absent, loses the
create to another writer, and merges into what that writer stored: the
hierarchy triple of the lost birth is merged in with it. If the key is
absent again on the retry, the hierarchy triple is stored twice. -/
theorem retry_not_pure_after_lost_birth : updateWithRetry none droneHierarchy 3 batteryArrival
        [⟨⟨none, 1, 1⟩, .lost⟩, ⟨⟨some droneResident, 2, 2⟩, .committed⟩] ≠
      updateWithRetry none droneHierarchy 3 batteryArrival
        [⟨⟨some droneResident, 2, 2⟩, .committed⟩] ∧
    updateWithRetry none droneHierarchy 3 batteryArrival
        [⟨⟨none, 1, 1⟩, .lost⟩, ⟨⟨none, 2, 2⟩, .committed⟩] ≠
      updateWithRetry none droneHierarchy 3 batteryArrival [⟨⟨none, 2, 2⟩, .committed⟩] := by
  decide

end SemStreams.GraphIngest
