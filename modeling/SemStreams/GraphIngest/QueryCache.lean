import SemStreams.Lib.Run
import SemStreams.Lib.Bucket
import SemStreams.Lib.Slots
/-!
# graph-ingest — the entity query cache

The query handlers of graph-ingest read entities through a cache in front
of the entity bucket. A writer commits to the bucket and then calls
`invalidateEntityCacheEntry`, which bumps the key's generation and drops
the entry under one lock. A reader that misses loads the generation, reads
the bucket, and stores what it read only if the generation is still the
one it loaded. Writers and readers of any number interleave between these
calls, and the cache may drop an entry at any time (expiry, capacity). The
generations are `uint64` in the source and do not wrap here.

The cache itself stores the entity only. `Cached` pairs it with the
revision of the read that produced it, which no step reads: it is what the
coherence statement speaks about.
-/

namespace SemStreams.GraphIngest

open Function Option

variable {α : Type*}

/-- A cached entity, and the bucket revision it was read at. -/
structure Cached (α : Type*) where
  entity : α
  revision : ℕ

/-- A cache-miss read of `fetchEntitiesConcurrent` in progress: the
generation is loaded, and then the entity is fetched. -/
inductive Reader (α : Type*)
  | loaded (id : String) (gen0 : ℕ)
  | fetched (id : String) (gen0 : ℕ) (entity : Cached α)

def Reader.id : Reader α → String
  | .loaded id _ => id
  | .fetched id _ _ => id

def Reader.gen0 : Reader α → ℕ
  | .loaded _ gen0 => gen0
  | .fetched _ gen0 _ => gen0

/-- The entity bucket, the cache with its generations, and the calls in
progress. `writers w` is a commit whose invalidation has not been called
yet, with the revision it committed. -/
structure QueryCache (α : Type*) where
  entityBucket : Bucket String α
  entityCache : Option (String → Option (Cached α))
  cacheGen : String → ℕ
  readers : ℕ → Option (Reader α)
  writers : ℕ → Option (String × ℕ)

namespace QueryCache

/-- Cache keys are refused by the cache when empty, on `Set` and `Delete`
alike. -/
def validateKey (key : String) : Bool := key ≠ ""

/-- `cache.Set`. -/
def cacheSet (c : String → Option (Cached α)) (key : String) (v : Cached α) :
    String → Option (Cached α) :=
  if validateKey key then update c key (some v) else c

/-- `cache.Delete`. -/
def cacheDelete (c : String → Option (Cached α)) (key : String) : String → Option (Cached α) :=
  if validateKey key then update c key none else c

/-- `cache.Get`: what a query is served without reading the bucket. -/
def cacheGet (s : QueryCache α) (id : String) : Option (Cached α) :=
  s.entityCache.bind fun c => c id

/-- Bumps the generation and drops the entry; a no-op when the cache is
disabled. -/
def invalidateEntityCacheEntry (s : QueryCache α) (id : String) : QueryCache α :=
  match s.entityCache with
  | none => s
  | some c =>
    { s with
      cacheGen := update s.cacheGen id (s.cacheGen id + 1)
      entityCache := some (cacheDelete c id) }

/-- The generation a reader captures before it reads the bucket. -/
def loadEntityCacheGen (s : QueryCache α) (id : String) : ℕ := s.cacheGen id

/-- Stores the entity unless the key was invalidated since `gen0` was
loaded. -/
def repopulateEntityCacheEntry (s : QueryCache α) (id : String) (entity : Cached α)
    (gen0 : ℕ) : QueryCache α :=
  match s.entityCache with
  | none => s
  | some c =>
    if s.cacheGen id = gen0 then { s with entityCache := some (cacheSet c id entity) } else s

/-- The atomic steps of writers, readers and the cache's own eviction. -/
inductive Event (α : Type*)
  | commit (w : ℕ) (id : String) (value : Option α)
  | invalidate (w : ℕ)
  | loadGen (r : ℕ) (id : String)
  | kvGet (r : ℕ) (readable : Bool)
  | repopulate (r : ℕ)
  | evict (id : String)

/-- One atomic step. A read that fails, finds nothing or does not decode
(`readable = false`) ends its reader without a repopulation. -/
def step (s : QueryCache α) : Event α → Option (QueryCache α)
  | .commit w id value =>
    match s.writers w with
    | some _ => none
    | none =>
      let bucket := s.entityBucket.write id value
      some { s with
        entityBucket := bucket
        writers := update s.writers w (some (id, bucket.revision id)) }
  | .invalidate w =>
    match s.writers w with
    | none => none
    | some (id, _) =>
      some { s.invalidateEntityCacheEntry id with
        writers := update s.writers w none }
  | .loadGen r id =>
    match s.readers r with
    | some _ => none
    | none =>
      some { s with
        readers := update s.readers r (some (.loaded id (s.loadEntityCacheGen id))) }
  | .kvGet r readable =>
    match s.readers r with
    | some (.loaded id gen0) =>
      match readable, s.entityBucket.get id with
      | true, some (v, rev) =>
        some { s with
          readers := update s.readers r (some (.fetched id gen0 ⟨v, rev⟩)) }
      | _, _ => some { s with readers := update s.readers r none }
    | _ => none
  | .repopulate r =>
    match s.readers r with
    | some (.fetched id gen0 entity) =>
      some { s.repopulateEntityCacheEntry id entity gen0 with
        readers := update s.readers r none }
    | _ => none
  | .evict id =>
    match s.entityCache with
    | none => none
    | some c => some { s with entityCache := some (update c id none) }

/-- A component that has just started: nothing cached, nothing in
progress. The bucket may hold anything. -/
def start (bucket : Bucket String α) (enabled : Bool) : QueryCache α where
  entityBucket := bucket
  entityCache := if enabled then some fun _ => none else none
  cacheGen := fun _ => 0
  readers := fun _ => none
  writers := fun _ => none

/-! ## What every reachable state satisfies -/

/-- No reader holds a generation from the future, a pending invalidation is
of a committed revision, and the key the cache refuses is never cached. -/
structure WellFormed (s : QueryCache α) : Prop where
  gen_le : ∀ r rd, s.readers r = some rd → rd.gen0 ≤ s.cacheGen rd.id
  commit_le : ∀ w p, s.writers w = some p → p.2 ≤ s.entityBucket.revision p.1
  refused : ∀ c, s.entityCache = some c → ∀ id, validateKey id = false → c id = none

theorem wellFormed_start (bucket : Bucket String α) (enabled : Bool) :
    WellFormed (start bucket enabled) where
  gen_le := by simp [start]
  commit_le := by simp [start]
  refused := by
    intro c hc _ _
    cases enabled with
    | false => simp [start] at hc
    | true =>
      simp only [start, if_true, Option.some.injEq] at hc
      rw [← hc]

variable {s s' : QueryCache α} {id : String} {rev w r gen0 : ℕ} {e : Cached α}
  {c : String → Option (Cached α)}

/-! Both operations of the cache in closed form. -/

theorem invalidate_eq : s.invalidateEntityCacheEntry id = { s with
    cacheGen := if s.entityCache.isSome then update s.cacheGen id (s.cacheGen id + 1) else s.cacheGen
    entityCache := s.entityCache.map fun c => cacheDelete c id } := by
  obtain ⟨_, cache, _, _, _⟩ := s
  cases cache <;> rfl

theorem repopulate_eq : s.repopulateEntityCacheEntry id e gen0 = { s with
    entityCache := s.entityCache.map fun c =>
      if s.cacheGen id = gen0 then cacheSet c id e else c } := by
  obtain ⟨_, cache, _, _, _⟩ := s
  cases cache with
  | none => rfl
  | some c =>
    simp only [repopulateEntityCacheEntry, map_some]
    split <;> rfl

theorem cacheDelete_cases : cacheDelete c id k = none ∨ cacheDelete c id k = c k := by
  unfold cacheDelete
  split
  · by_cases hid : k = id
    · rw [hid, update_self]
      exact .inl rfl
    · exact .inr (update_of_ne hid ..)
  · exact .inr rfl

theorem cacheSet_cases :
    (k = id ∧ validateKey id ∧ cacheSet c id e k = some e) ∨ cacheSet c id e k = c k := by
  unfold cacheSet
  split
  · by_cases hid : k = id
    · rw [hid, update_self]
      exact .inl ⟨rfl, ‹_›, rfl⟩
    · exact .inr (update_of_ne hid ..)
  · exact .inr rfl

/-! One equation per event: what the step needs and what it leaves. -/

theorem step_commit (h : step s (.commit w id v) = some s') : s' = { s with
      entityBucket := s.entityBucket.write id v
      writers := update s.writers w
        (some (id, (s.entityBucket.write id v).revision id)) } := by
  simp only [step] at h
  split at h
  · simp at h
  · exact (Option.some.inj h).symm

theorem step_invalidate (h : step s (.invalidate w) = some s') :
    ∃ id rev, s.writers w = some (id, rev) ∧
      s' = { s.invalidateEntityCacheEntry id with
        writers := update s.writers w none } := by
  simp only [step] at h
  split at h
  · simp at h
  · rename_i id rev hw
    exact ⟨id, rev, hw, (Option.some.inj h).symm⟩

theorem step_loadGen (h : step s (.loadGen r id) = some s') :
    s' = { s with readers := update s.readers r (some (.loaded id (s.cacheGen id))) } := by
  simp only [step] at h
  split at h
  · simp at h
  · exact (Option.some.inj h).symm

theorem step_kvGet (h : step s (.kvGet r readable) = some s') :
    ∃ id gen0, s.readers r = some (.loaded id gen0) ∧
      ((∃ v rev, s.entityBucket.get id = some (v, rev) ∧ s' = { s with
            readers := update s.readers r (some (.fetched id gen0 ⟨v, rev⟩)) }) ∨
        s' = { s with readers := update s.readers r none }) := by
  simp only [step] at h
  split at h
  · rename_i id gen0 hr
    refine ⟨id, gen0, hr, ?_⟩
    split at h
    · rename_i v rev hget
      exact .inl ⟨v, rev, hget, (Option.some.inj h).symm⟩
    · exact .inr (Option.some.inj h).symm
  · simp at h

theorem step_repopulate (h : step s (.repopulate r) = some s') :
    ∃ id gen0 e, s.readers r = some (.fetched id gen0 e) ∧
      s' = { s.repopulateEntityCacheEntry id e gen0 with
        readers := update s.readers r none } := by
  simp only [step] at h
  split at h
  · rename_i id gen0 e hr
    exact ⟨id, gen0, e, hr, (Option.some.inj h).symm⟩
  · simp at h

theorem step_evict (h : step s (.evict id) = some s') : ∃ c, s.entityCache = some c ∧
      s' = { s with entityCache := some (update c id none) } := by
  simp only [step] at h
  split at h
  · simp at h
  · rename_i c hc
    exact ⟨c, hc, (Option.some.inj h).symm⟩

/-- **One step keeps the state well formed.** -/
theorem WellFormed.step {e : Event α} (hs : WellFormed s) (h : step s e = some s') :
    WellFormed s' := by
  cases e with
  | commit w id v =>
    rw [step_commit h]
    have hold : ∀ w' p, s.writers w' = some p →
        p.2 ≤ (s.entityBucket.write id v).revision p.1 :=
      fun w' p hp => (hs.commit_le w' p hp).trans Bucket.revision_le_write
    exact { hs with commit_le := forall_slot_fill (le_refl _) hold }
  | invalidate w =>
    obtain ⟨id, rev, -, rfl⟩ := step_invalidate h
    rw [invalidate_eq]
    refine ⟨fun r rd hr => (hs.gen_le r rd hr).trans ?_, forall_slot_free hs.commit_le, ?_⟩
    · dsimp only
      split
      · by_cases hid : rd.id = id
        · simp [hid]
        · rw [update_of_ne hid]
      · exact le_rfl
    · intro c hc k hk
      obtain ⟨c, hcache, rfl⟩ := map_eq_some_iff.1 hc
      rcases cacheDelete_cases with hnone | hsame
      · exact hnone
      · exact hsame.trans (hs.refused c hcache k hk)
  | loadGen r id =>
    rw [step_loadGen h]
    exact { hs with gen_le := forall_slot_fill (le_refl _) hs.gen_le }
  | kvGet r readable =>
    obtain ⟨id, gen0, hr, hcase⟩ := step_kvGet h
    -- the reader keeps the generation it loaded, or ends
    rcases hcase with ⟨v, rev, -, rfl⟩ | rfl
    · have hgen : gen0 ≤ s.cacheGen id := hs.gen_le r _ hr
      exact { hs with gen_le := forall_slot_fill hgen hs.gen_le }
    · exact { hs with gen_le := forall_slot_free hs.gen_le }
  | repopulate r =>
    obtain ⟨id, gen0, e, -, rfl⟩ := step_repopulate h
    rw [repopulate_eq]
    refine ⟨forall_slot_free hs.gen_le, hs.commit_le, fun c hc k hk => ?_⟩
    obtain ⟨c, hcache, rfl⟩ := map_eq_some_iff.1 hc
    split
    · rcases @cacheSet_cases _ id e c k with ⟨rfl, hvalid, -⟩ | hsame
      · rw [hk] at hvalid
        cases hvalid
      · exact hsame.trans (hs.refused c hcache k hk)
    · exact hs.refused c hcache k hk
  | evict id =>
    obtain ⟨c₀, hcache, rfl⟩ := step_evict h
    refine ⟨hs.gen_le, hs.commit_le, ?_⟩
    intro c hc k hk
    cases hc
    by_cases hid : k = id
    · rw [hid, update_self]
    · rw [update_of_ne hid]
      exact hs.refused c₀ hcache k hk

/-! ## Behind a completed invalidation -/

/-- **The key is fenced at `rev`.** The bucket is at `rev` or newer, so is
what the cache holds, and so is every fetched entity that may still be
stored, those whose generation is the current one. -/
structure Fenced (id : String) (rev : ℕ) (s : QueryCache α) : Prop where
  bucket : rev ≤ s.entityBucket.revision id
  cached : ∀ e, s.cacheGet id = some e → rev ≤ e.revision
  fetched : s.entityCache.isSome → ∀ r gen0 e, s.readers r = some (.fetched id gen0 e) →
    gen0 = s.cacheGen id → rev ≤ e.revision

/-- An invalidation fences its key at the revision of its commit: the entry
is gone, and every reader's generation is now outdated. -/
theorem fenced_of_invalidate (hs : WellFormed s) (hw : s.writers w = some (id, rev))
    (h : step s (.invalidate w) = some s') : Fenced id rev s' := by
  obtain ⟨_, _, hw₀, rfl⟩ := step_invalidate h
  rw [hw, Option.some.injEq, Prod.mk.injEq] at hw₀
  obtain ⟨rfl, rfl⟩ := hw₀
  rw [invalidate_eq]
  refine ⟨hs.commit_le w _ hw, fun e he => ?_, fun hsome r gen0 e hr hgen => ?_⟩
  · obtain ⟨_, hc, he⟩ := bind_eq_some_iff.1 he
    obtain ⟨c, hcache, rfl⟩ := map_eq_some_iff.1 hc
    unfold cacheDelete at he
    cases hk : validateKey id with
    | true => simp [hk] at he
    | false => simp [hk, hs.refused c hcache id hk] at he
  · have hle : gen0 ≤ s.cacheGen id := hs.gen_le r _ hr
    rw [isSome_map] at hsome
    simp only [hsome, if_true, update_self] at hgen
    omega

/-- **A fence stays up.** Commits only raise the bucket's revision, a later
read returns that revision or newer, a stale reader fails the generation
check, and eviction stores nothing. -/
theorem Fenced.step {e : Event α} (hs : WellFormed s) (hf : Fenced id rev s)
    (h : step s e = some s') : Fenced id rev s' := by
  -- the readers other than the one that moves keep what they fetched
  have hmoved : ∀ {r₀ : ℕ} {rd : Option (Reader α)}, s.entityCache.isSome →
      (∀ gen0 e, rd = some (.fetched id gen0 e) → gen0 = s.cacheGen id → rev ≤ e.revision) →
      ∀ r gen0 e, update s.readers r₀ rd r = some (.fetched id gen0 e) →
        gen0 = s.cacheGen id → rev ≤ e.revision := by
    intro r₀ rd hsome hnew r gen0 e hr
    by_cases hr₀ : r = r₀
    · rw [hr₀, update_self] at hr
      exact hnew gen0 e hr
    · rw [update_of_ne hr₀] at hr
      exact hf.fetched hsome r gen0 e hr
  cases e with
  | commit w id' v =>
    rw [step_commit h]
    exact ⟨hf.bucket.trans Bucket.revision_le_write, hf.cached, hf.fetched⟩
  | invalidate w =>
    obtain ⟨id', rev', -, rfl⟩ := step_invalidate h
    rw [invalidate_eq]
    refine ⟨hf.bucket, fun e he => hf.cached e ?_, fun hsome r gen0 e hr hgen => ?_⟩
    · obtain ⟨_, hc, he⟩ := bind_eq_some_iff.1 he
      obtain ⟨c, hcache, rfl⟩ := map_eq_some_iff.1 hc
      rcases cacheDelete_cases with hnone | hsame
      · rw [hnone] at he
        cases he
      · exact bind_eq_some_iff.2 ⟨c, hcache, hsame ▸ he⟩
    · rw [isSome_map] at hsome
      simp only [hsome, if_true] at hgen
      by_cases hid : id = id'
      · -- the generation moved past every reader of the key
        subst hid
        have hle : gen0 ≤ s.cacheGen id := hs.gen_le r _ hr
        rw [update_self] at hgen
        omega
      · rw [update_of_ne hid] at hgen
        exact hf.fetched hsome r gen0 e hr hgen
  | loadGen r id' =>
    rw [step_loadGen h]
    exact ⟨hf.bucket, hf.cached, fun hsome => hmoved hsome (by simp)⟩
  | kvGet r readable =>
    obtain ⟨id', gen', hr, ⟨v, rev', hget, rfl⟩ | rfl⟩ := step_kvGet h
    · refine ⟨hf.bucket, hf.cached, fun hsome => hmoved hsome ?_⟩
      -- the entity just read carries the bucket's own revision
      rintro _ _ ⟨⟩ -
      exact hf.bucket.trans (Bucket.get_revision hget).le
    · exact ⟨hf.bucket, hf.cached, fun hsome => hmoved hsome (by simp)⟩
  | repopulate r =>
    obtain ⟨id', gen', e', hr, rfl⟩ := step_repopulate h
    rw [repopulate_eq]
    refine ⟨hf.bucket, fun e he => ?_, fun hsome => ?_⟩
    · obtain ⟨_, hc, he⟩ := bind_eq_some_iff.1 he
      obtain ⟨c, hcache, rfl⟩ := map_eq_some_iff.1 hc
      have hold : c id = some e → rev ≤ e.revision := fun he =>
        hf.cached e (bind_eq_some_iff.2 ⟨c, hcache, he⟩)
      split at he
      · rename_i hgen
        rcases @cacheSet_cases _ id' e' c id with ⟨rfl, -, hset⟩ | hsame
        · cases hset.symm.trans he
          exact hf.fetched (by simp [hcache]) r gen' _ hr hgen.symm
        · exact hold (hsame.symm.trans he)
      · exact hold he
    · rw [isSome_map] at hsome
      exact hmoved hsome (by simp)
  | evict id' =>
    obtain ⟨c, hc, rfl⟩ := step_evict h
    refine ⟨hf.bucket, ?_, fun _ => hf.fetched (by simp [hc])⟩
    intro e he
    simp only [cacheGet, bind_some] at he
    by_cases hid : id = id'
    · simp [hid] at he
    · rw [update_of_ne hid] at he
      exact hf.cached e (by simpa [cacheGet, hc] using he)

/-- Every state a started component reaches is well formed. -/
theorem wellFormed_of_run (h : run step (start bucket enabled) es = some s) : WellFormed s :=
  run_invariant (fun _ _ _ hs hstep => WellFormed.step hs hstep)
    (wellFormed_start bucket enabled) h

/-- **No stale entity behind a completed invalidation.** In any run, take a
writer that has committed `rev` to a key and let its invalidation return.
Whatever the other writers, the readers and the cache do from there on,
the cache holds and serves only what was read at `rev` or later. -/
theorem cache_fresh_after_invalidation {bucket : Bucket String α} {enabled : Bool}
    {es es' : List (Event α)} {s t : QueryCache α} {w rev : ℕ} {id : String}
    (hrun : run step (start bucket enabled) es = some s) (hw : s.writers w = some (id, rev))
    (hrest : run step s (.invalidate w :: es') = some t) :
    ∀ e, t.cacheGet id = some e → rev ≤ e.revision := by
  obtain ⟨s₁, hinv, hrest⟩ := run_cons_eq_some.1 hrest
  have hs := wellFormed_of_run hrun
  have hfence : WellFormed s₁ ∧ Fenced id rev s₁ :=
    ⟨hs.step hinv, fenced_of_invalidate hs hw hinv⟩
  have hend := run_invariant (I := fun q => WellFormed q ∧ Fenced id rev q)
    (fun _ _ _ hi hstep => ⟨hi.1.step hstep, hi.2.step hi.1 hstep⟩) hfence hrest
  exact hend.2.cached

/-- A reader fetches revision `1` of a key and is overtaken by the commit
of revision `2`. -/
def overtaken : List (Event ℕ) :=
  [.commit 0 "a" (some 7), .invalidate 0, .loadGen 1 "a", .kvGet 1 true, .commit 2 "a" (some 8)]

/-- The overtaken reader's repopulation is dropped, and the next reader
caches revision `2`. -/
theorem cache_fresh_after_overtaken_reader :
    ∃ s t : QueryCache ℕ, run step (start Bucket.empty true) overtaken = some s ∧
      run step s [.invalidate 2, .repopulate 1, .loadGen 3 "a", .kvGet 3 true,
        .repopulate 3] = some t ∧
      t.cacheGet "a" = some ⟨8, 2⟩ ∧ ∀ e, t.cacheGet "a" = some e → 2 ≤ e.revision := by
  refine' ⟨_, _, ?run, ?rest, ?cached, cache_fresh_after_invalidation ?run ?writer ?rest⟩
  case run | writer | rest | cached => rfl

end QueryCache

end SemStreams.GraphIngest
