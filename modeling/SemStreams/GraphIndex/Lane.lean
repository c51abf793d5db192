import SemStreams.GraphIndex.Reconcile
/-!
# graph-index — a lane at work on one entity

`processEntityWork` step by step. A lane reads the authoritative state, then
either deletes what the entity owns, after a preflight that lists all of it, or
applies the entity's plan with up to three attempts. It ends by marking the
entity as failed or clearing the mark, which takes two steps each: the set
first, then the counter that status and queries read. Last the revision is
completed.

`Works` says once what a step can do. `StageOk` is what a stage knows about the
rows, under the proviso that the state read is still the current one, and
`Sound` what a reader may rely on: the rows are those of the current state, or
the entity is marked.
-/

namespace SemStreams.GraphIndex

open SemStreams.Graph List

/-- What the lanes work on: the rows, the failed entities with their count, and
whether a reset of the graph is required. -/
structure Indexer where
  rows : IndexRows
  failedEntities : List String
  failedCount : ℤ
  resetRequired : Bool

/-- Where a lane is with its work. The number is the revision to complete, `0`
for none. -/
inductive Stage
  | reading (completion : ℕ)
  /-- `DeleteFromIndexes` lists the owned rows, family by family. -/
  | preflight (completion : ℕ) (left : List Family) (found : List Instr) (failed : Bool)
  /-- An attempt to write the rows of the goal. -/
  | applying (completion : ℕ) (goal : Option EntityIndexPlan) (attempt : ℕ) (failed : Bool)
      (todo : List Instr)
  /-- In the failed set, not counted yet. -/
  | marking (completion : ℕ)
  /-- Out of the failed set, still counted. -/
  | clearing (completion : ℕ)
  | completing (completion : ℕ)

open Stage

def Stage.completion : Stage → ℕ
  | .reading c => c
  | .preflight c _ _ _ => c
  | .applying c _ _ _ _ => c
  | .marking c => c
  | .clearing c => c
  | .completing c => c

/-- The stages before the mark is settled. -/
def Stage.busy : Stage → Bool
  | .reading _ => true
  | .preflight .. => true
  | .applying .. => true
  | _ => false

def indexWriteMaxAttempts : ℕ := 3

/-- `markEntityFailed`, up to the counter. -/
def markEntityFailed (x : Indexer) (id : String) (completion : ℕ) : Indexer × Stage :=
  if id ∈ x.failedEntities then (x, .completing completion)
  else ({ x with failedEntities := id :: x.failedEntities }, .marking completion)

/-- `clearEntityFailed`, up to the counter. -/
def clearEntityFailed (x : Indexer) (id : String) (completion : ℕ) : Indexer × Stage :=
  if id ∈ x.failedEntities then
    ({ x with failedEntities := x.failedEntities.filter (· ≠ id) }, .clearing completion)
  else (x, .completing completion)

/-- What follows the read of the authoritative state: `DeleteFromIndexes` up to
its first listing, or `processEntityUpdateFromData` up to its first write. A
cancelled context ends the former without a mark. -/
def reconcileRead (v : Vocabulary) (id : String) (cancelled : Bool) (x : Indexer) (completion : ℕ) :
    Option EntityState → Indexer × Stage
  | none =>
    if cancelled = true ∨
        (families.all fun f => validateKVWildcardFilter (f.ownerFilter id) = .ok ()) = false then
      (x, .completing completion)
    else (x, .preflight completion families [] false)
  | some state =>
    if validateEntityStateContract state = false then
      ({ x with resetRequired := true }, .completing completion)
    else if state.id ≠ id then
      -- the revision stays in flight
      markEntityFailed { x with resetRequired := true } id 0
    else
      match buildEntityIndexPlan v state id with
      | none => (x, .completing completion)
      | some plan => (x, .applying completion (some plan) 0 false (applyEntityIndexPlan plan))

/-- **A step of a lane**, with the state the store holds for the entity and the
answer of the store to the call the step makes. -/
def work (v : Vocabulary) (id : String) (cancelled : Bool) (stored : Option EntityState) (x : Indexer)
    (answer : StoreAnswer) : Stage → Indexer × Stage
  | .reading c =>
    if validateEntityLiteralKey id = false then markEntityFailed { x with resetRequired := true } id 0
    else if answer = .ok then reconcileRead v id cancelled x c stored
    else markEntityFailed x id c
  | .preflight c [] found failed =>
    if failed then markEntityFailed x id c else (x, .applying c none 0 false (.outgoing :: found))
  | .preflight c (f :: left) found failed =>
    let keys := uniqueSortedStrings (x.rows.owned f id)
    if answer = .ok then
      (x, .preflight c left (found ++ keys.map fun key => .row f (.delete key))
        (failed || keys.any fun key => validateKVLiteralKey key ≠ .ok ()))
    else (x, .preflight c left found true)
  | .applying c goal attempt failed (instr :: todo) =>
    let r := exec v id goal x.rows answer instr
    ({ x with rows := r.1 }, .applying c goal attempt (failed || r.2.2) (r.2.1 ++ todo))
  | .applying c _ _ false [] => clearEntityFailed x id c
  | .applying c none _ true [] => markEntityFailed x id c
  | .applying c (some plan) attempt true [] =>
    if cancelled = false ∧ attempt + 1 < indexWriteMaxAttempts then
      (x, .applying c (some plan) (attempt + 1) false (applyEntityIndexPlan plan))
    else markEntityFailed x id c
  | .marking c => ({ x with failedCount := x.failedCount + 1 }, .completing c)
  | .clearing c => ({ x with failedCount := x.failedCount - 1 }, .completing c)
  | .completing c => (x, .completing c)

/-! ## What a step can do -/

/-- **The steps of a lane** on a canonical entity whose state is within the
contract. -/
inductive Works (v : Vocabulary) (id : String) (cancelled : Bool) (stored : Option EntityState)
    (x : Indexer) : Stage → Indexer → Stage → Prop
  | markNew {stage : Stage} (hbusy : stage.busy = true) (hnew : id ∉ x.failedEntities) :
      Works v id cancelled stored x stage { x with failedEntities := id :: x.failedEntities }
        (.marking stage.completion)
  | markOld {stage : Stage} (hbusy : stage.busy = true) (hold : id ∈ x.failedEntities) :
      Works v id cancelled stored x stage x (.completing stage.completion)
  | cancelled {c : ℕ} (hcancelled : cancelled = true) :
      Works v id cancelled stored x (.reading c) x (.completing c)
  | absent {c : ℕ} (hnone : stored = none) :
      Works v id cancelled stored x (.reading c) x (.preflight c families [] false)
  | present {c : ℕ} {state : EntityState} (hsome : stored = some state)
      (hstate : validateEntityStateContract state = true) :
      Works v id cancelled stored x (.reading c) x (.applying c (some (collectPlan v state id)) 0 false
        (applyEntityIndexPlan (collectPlan v state id)))
  | listed {c : ℕ} {f : Family} {left : List Family} {found : List Instr} {failed bad : Bool} :
      Works v id cancelled stored x (.preflight c (f :: left) found failed) x (.preflight c left
        (found ++ reconcileOps f (x.rows.owned f id) []) (failed || bad))
  | unlisted {c : ℕ} {f : Family} {left : List Family} {found : List Instr} {failed : Bool} :
      Works v id cancelled stored x (.preflight c (f :: left) found failed) x (.preflight c left found true)
  | ready {c : ℕ} {found : List Instr} :
      Works v id cancelled stored x (.preflight c [] found false) x
        (.applying c none 0 false (.outgoing :: found))
  | exec {c attempt : ℕ} {goal : Option EntityIndexPlan} {failed : Bool} {instr : Instr}
      {todo : List Instr} (answer : StoreAnswer) :
      Works v id cancelled stored x (.applying c goal attempt failed (instr :: todo))
        { x with rows := (exec v id goal x.rows answer instr).1 }
        (.applying c goal attempt (failed || (exec v id goal x.rows answer instr).2.2)
          ((exec v id goal x.rows answer instr).2.1 ++ todo))
  | retry {c attempt : ℕ} {plan : EntityIndexPlan} :
      Works v id cancelled stored x (.applying c (some plan) attempt true []) x
        (.applying c (some plan) (attempt + 1) false (applyEntityIndexPlan plan))
  | clearOld {c attempt : ℕ} {goal : Option EntityIndexPlan} (hold : id ∈ x.failedEntities) :
      Works v id cancelled stored x (.applying c goal attempt false [])
        { x with failedEntities := x.failedEntities.filter (· ≠ id) } (.clearing c)
  | clearNone {c attempt : ℕ} {goal : Option EntityIndexPlan} (hnone : id ∉ x.failedEntities) :
      Works v id cancelled stored x (.applying c goal attempt false []) x (.completing c)
  | marked {c : ℕ} : Works v id cancelled stored x (.marking c)
      { x with failedCount := x.failedCount + 1 } (.completing c)
  | cleared {c : ℕ} : Works v id cancelled stored x (.clearing c)
      { x with failedCount := x.failedCount - 1 } (.completing c)
  | idle {c : ℕ} : Works v id cancelled stored x (.completing c) x (.completing c)

section Work

variable {v : Vocabulary} {id : String} {cancelled : Bool} {stored : Option EntityState}
  {x : Indexer}

/-- The deletions of a preflight are those of an owner that wants no row. -/
theorem reconcileOps_nil (f : Family) (existing : List String) : reconcileOps f existing [] =
      (uniqueSortedStrings existing).map fun key => .row f (.delete key) := by
  have hkeep : existing.filter (fun key => decide (key ∉ ([] : List String))) = existing := by simp
  unfold reconcileOps
  rw [hkeep, filter_nil]
  exact append_nil _

theorem works_mark (h : stage.busy) :
    Works v id cancelled stored x stage (markEntityFailed x id stage.completion).1
      (markEntityFailed x id stage.completion).2 := by
  unfold markEntityFailed
  split
  · rename_i hold
    exact .markOld h hold
  · rename_i hnew
    exact .markNew h hnew

theorem works_read (hid : isValidEntityID id)
    (hstored : ∀ state, stored = some state → validateEntityStateContract state ∧ state.id = id) :
    Works v id cancelled stored x (.reading c) (reconcileRead v id cancelled x c stored).1
      (reconcileRead v id cancelled x c stored).2 := by
  have hfilters : (families.all fun f => validateKVWildcardFilter (f.ownerFilter id) = .ok ()) :=
    List.all_eq_true.2 fun f _ => decide_eq_true (ownerFilter_ok f hid)
  cases hcur : stored with
  | none =>
    rw [reconcileRead, hfilters]
    split
    · rename_i h
      exact .cancelled (h.resolve_right nofun)
    · exact .absent rfl
  | some state =>
    obtain ⟨hstate, hmatch⟩ := hstored state hcur
    rw [reconcileRead, hstate, buildEntityIndexPlan_eq hstate hid, if_neg Bool.noConfusion,
      if_neg (fun h => h hmatch)]
    exact .present rfl hstate

/-- **A step is one of the above.** -/
theorem works_of_work (hid : isValidEntityID id)
    (hstored : ∀ state, stored = some state → validateEntityStateContract state ∧ state.id = id) :
    Works v id cancelled stored x stage (work v id cancelled stored x answer stage).1
      (work v id cancelled stored x answer stage).2 := by
  cases stage with
  | reading c =>
    rw [work, validateEntityLiteralKey_eq, hid, if_neg Bool.noConfusion]
    split
    · exact works_read hid hstored
    · exact works_mark rfl
  | preflight c left found failed =>
    cases left with
    | nil =>
      cases failed with
      | true => exact works_mark rfl
      | false => exact .ready
    | cons f left =>
      unfold work
      dsimp only
      split
      · rw [← reconcileOps_nil]
        exact .listed
      · exact .unlisted
  | applying c goal attempt failed todo =>
    cases todo with
    | cons instr todo => exact .exec answer
    | nil =>
      cases failed with
      | false =>
        rw [work]
        unfold clearEntityFailed
        split
        · rename_i hold
          exact .clearOld hold
        · rename_i hnone
          exact .clearNone hnone
      | true =>
        cases goal with
        | none => exact works_mark rfl
        | some plan =>
          rw [work]
          split
          · exact .retry
          · exact works_mark rfl
  | marking c => exact .marked
  | clearing c => exact .cleared
  | completing c => exact .idle

end Work

/-! ## What a stage knows -/

def goalOf (v : Vocabulary) (id : String) (stored : Option EntityState) : Option EntityIndexPlan :=
  stored.map (collectPlan v · id)

/-- **What a stage knows**, where `fresh` says that the state it read is still
the one stored. -/
def StageOk (v : Vocabulary) (id : String) (cancelled : Bool) (stored : Option EntityState)
    (fresh : Prop) (x : Indexer) : Stage → Prop
  | .reading _ => True
  | .preflight _ left found failed => (fresh → stored = none) ∧ Towards v id none found ∧
      (failed = false → Leads v id none x.rows (left.map .list ++ .outgoing :: found))
  | .applying _ goal _ failed todo => (fresh → goal = goalOf v id stored) ∧ GoalOk v id goal ∧
      Towards v id goal todo ∧ (failed = false → Leads v id goal x.rows todo)
  | .marking _ => id ∈ x.failedEntities
  | .clearing _ => id ∉ x.failedEntities ∧ (fresh → Settled v id (goalOf v id stored) x.rows)
  | .completing _ => cancelled = false → fresh →
      Settled v id (goalOf v id stored) x.rows ∨ id ∈ x.failedEntities

/-- The entity is in the failed set but not counted yet. -/
def Stage.isMarking : Stage → Bool
  | .marking _ => true
  | _ => false

/-- The entity is counted although no longer in the failed set. -/
def Stage.isClearing : Stage → Bool
  | .clearing _ => true
  | _ => false

/-- **What a reader may rely on**: the rows are those of the state stored, or
the entity is marked and counted. -/
def Sound (v : Vocabulary) (id : String) (stored : Option EntityState) (x : Indexer)
    (stage : Option Stage) : Prop :=
  Settled v id (goalOf v id stored) x.rows ∨
    id ∈ x.failedEntities ∧ stage.any isMarking = false

/-- The counter of failed entities has counted this one. -/
def Counted (id : String) (x : Indexer) (stage : Option Stage) : Prop :=
  id ∈ x.failedEntities ∧ stage.any isMarking = false ∨ stage.any isClearing = true

section Stages

variable {v : Vocabulary} {id : String} {cancelled : Bool} {stored : Option EntityState}
  {fresh : Prop} {x : Indexer} {stage : Stage}

theorem StageOk.mono (h : StageOk v id cancelled stored fresh x stage) (hfresh : fresh' → fresh) :
    StageOk v id cancelled stored fresh' x stage := by
  cases stage with
  | reading c => trivial
  | preflight | applying => exact ⟨fun hf => h.1 (hfresh hf), h.2⟩
  | marking c => exact h
  | clearing c => exact ⟨h.1, fun hf => h.2 (hfresh hf)⟩
  | completing c => exact fun hc hf => h hc (hfresh hf)

/-- A stage that read another state than the one stored knows nothing of it. -/
theorem StageOk.stale (h : StageOk v id cancelled stored fresh x stage) :
    StageOk v id cancelled stored' False x stage := by
  cases stage with
  | reading c => trivial
  | preflight | applying => exact ⟨False.elim, h.2⟩
  | marking c => exact h
  | clearing c => exact ⟨h.1, False.elim⟩
  | completing c => exact fun _ => False.elim

theorem StageOk.cancel (h : StageOk v id cancelled stored fresh x stage) :
    StageOk v id true stored fresh x stage := by
  cases stage with
  | completing c => exact nofun
  | _ => exact h

/-- Another entity's rows and mark do not matter to a stage. -/
theorem StageOk.of_agree (h : StageOk v id cancelled stored fresh x stage)
    (hrows : Agree id x.rows x'.rows) (hfailed : id ∈ x'.failedEntities ↔ id ∈ x.failedEntities) :
    StageOk v id cancelled stored fresh x' stage := by
  cases stage with
  | reading c => trivial
  | preflight c left found failed => exact ⟨h.1, h.2.1, fun hok => (h.2.2 hok).of_agree hrows⟩
  | applying c goal attempt failed todo =>
    exact ⟨h.1, h.2.1, h.2.2.1, fun hok => (h.2.2.2 hok).of_agree hrows⟩
  | marking c => exact hfailed.2 h
  | clearing c => exact ⟨fun hmem => h.1 (hfailed.1 hmem), fun hf => (h.2 hf).of_agree hrows⟩
  | completing c =>
    intro hc hf
    rw [hfailed]
    exact (h hc hf).imp_left fun hsettled => hsettled.of_agree hrows

theorem Sound.of_agree (h : Sound v id stored x lane)
    (hrows : Agree id x.rows x'.rows) (hfailed : id ∈ x'.failedEntities ↔ id ∈ x.failedEntities) :
    Sound v id stored x' lane := by
  unfold Sound
  rw [hfailed]
  exact h.imp_left fun hsettled => hsettled.of_agree hrows

variable {goal : Option EntityIndexPlan}

theorem towards_of_no_rows (h : ∀ f op, Instr.row f op ∉ todo) : Towards v id goal todo :=
  fun f => ⟨fun _ hk => absurd hk (h f _), fun _ hk => absurd hk (h f _)⟩

/-- A fresh pass lists every family and writes the OUTGOING entry. -/
theorem leads_apply (rows : IndexRows) : Leads v id goal rows (applyEntityIndexPlan plan) := by
  refine ⟨fun f => .inl ?_, .inl (by simp [applyEntityIndexPlan])⟩
  cases f <;> simp [applyEntityIndexPlan]

theorem towards_apply : Towards v id goal (applyEntityIndexPlan plan) :=
  towards_of_no_rows fun f op => by simp [applyEntityIndexPlan]

theorem goalOk_some (h : validateEntityStateContract state) :
    GoalOk v id (some (collectPlan v state id)) :=
  fun _ heq => ⟨state, h, (Option.some.inj heq).symm⟩

theorem Leads.congr (h : Leads v id goal rows todo)
    (hmem : ∀ i, i ∈ todo ↔ i ∈ todo') : Leads v id goal rows todo' := by
  refine ⟨fun f => ?_, by rw [← hmem]; exact h.outgoing⟩
  rcases h.keys f with hlist | hconv
  · exact .inl ((hmem _).1 hlist)
  · refine .inr fun key hkey => ?_
    have hthis := hconv key hkey
    simpa only [hmem] using hthis

variable (hid : isValidEntityID id = true) (hall : AllRows x.rows)
include hid hall

/-- A family listed in the preflight: its rows are to be deleted. -/
theorem listed_ok {f : Family} {left : List Family} {found : List Instr}
    (htowards : Towards v id none found) :
    Towards v id none (found ++ reconcileOps f (x.rows.owned f id) []) ∧
      (Leads v id none x.rows (.list f :: (left.map .list ++ .outgoing :: found)) →
        Leads v id none x.rows
          (left.map .list ++ .outgoing :: (found ++ reconcileOps f (x.rows.owned f id) []))) := by
  have hgoal : GoalOk v id none := nofun
  have hstart : Towards v id none (.list f :: (left.map .list ++ .outgoing :: found)) := by
    intro g
    refine (htowards g).mono (fun _ hrow => hrow) fun o ho => ?_
    simpa using ho
  -- the same as the listing of a pass without a goal
  have hexec : exec v id none x.rows .ok (.list f) =
      (x.rows, reconcileOps f (x.rows.owned f id) [], false) := by
    unfold exec
    exact if_pos ⟨rfl, rfl⟩
  refine ⟨?_, fun hleads => ?_⟩
  · have h := @exec_towards _ _ _ _ _ _ .ok hgoal hid hall hstart
    intro g
    refine (h g).mono (fun _ hrow => hrow) fun o ho => ?_
    rcases mem_append.1 ho with ho | ho
    · exact mem_append_right _ (mem_append_right _ (mem_cons_of_mem _ ho))
    · exact mem_append_left _ ho
  · have h := @exec_leads _ _ _ _ _ _ .ok hgoal hid hall hstart hleads (by rw [hexec])
    refine h.congr fun i => ?_
    simp only [mem_append, mem_cons]
    tauto

end Stages

/-! ## What a step keeps -/

section Steps

variable {v : Vocabulary} {id id' : String} {cancelled : Bool} {stored : Option EntityState}
  {fresh : Prop} {x x' : Indexer} {stage stage' : Stage}
  (hstep : Works v id cancelled stored x stage x' stage')
include hstep

theorem Works.completion_eq : stage'.completion = stage.completion := by
  cases hstep <;> rfl

theorem Works.resetRequired_eq : x'.resetRequired = x.resetRequired := by
  cases hstep <;> rfl

/-- Another entity's mark is not touched. -/
theorem Works.mem_failedEntities (hne : id' ≠ id) :
    id' ∈ x'.failedEntities ↔ id' ∈ x.failedEntities := by
  cases hstep with
  | markNew => simp [hne]
  | clearOld => simp [hne]
  | _ => exact Iff.rfl

/-- A mark is of an entity that was worked on. -/
theorem Works.failedEntities_subset (h : id' ∈ x'.failedEntities) : id' ∈ x.failedEntities ∨ id' = id := by
  by_cases hne : id' = id
  · exact .inr hne
  · exact .inl ((hstep.mem_failedEntities hne).1 h)

section Rows

variable (hok : StageOk v id cancelled stored fresh x stage)
include hok

theorem Works.allRows (hall : AllRows x.rows) : AllRows x'.rows := by
  cases hstep with
  | exec answer =>
    obtain ⟨-, -, htowards, -⟩ := hok
    exact exec_allRows hall htowards
  | _ => exact hall

/-- **Another entity's rows are not touched.** -/
theorem Works.agree (hid' : isValidEntityID id') (hne : id' ≠ id) : Agree id' x.rows x'.rows := by
  cases hstep with
  | exec answer =>
    obtain ⟨-, -, htowards, -⟩ := hok
    exact exec_agree hid' hne htowards
  | _ => exact .refl id' x.rows

/-- **Settled rows stay settled** while the state read is the one stored. -/
theorem Works.settled (hid : isValidEntityID id) (hfresh : fresh)
    (h : Settled v id (goalOf v id stored) x.rows) : Settled v id (goalOf v id stored) x'.rows := by
  cases hstep with
  | exec answer =>
    obtain ⟨hgoal, -, htowards, -⟩ := hok
    rw [hgoal hfresh] at htowards ⊢
    exact exec_settled hid h htowards
  | _ => exact h

/-- **A stage hands on what it knows.** -/
theorem Works.stageOk (hid : isValidEntityID id) (hall : AllRows x.rows) :
    StageOk v id cancelled stored fresh x' stage' := by
  cases hstep with
  | markNew => exact mem_cons_self
  | markOld _ hold => exact fun _ _ => .inr hold
  | cancelled hcancelled =>
    intro hc
    rw [hcancelled] at hc
    exact nomatch hc
  | absent hnone =>
    refine ⟨fun _ => hnone, towards_of_no_rows fun _ _ => not_mem_nil, fun _ => ⟨fun f => .inl ?_, .inl ?_⟩⟩
    · cases f <;> simp [families]
    · simp
  | present hsome hstate =>
    refine ⟨fun _ => ?_, goalOk_some hstate, towards_apply, fun _ => leads_apply _⟩
    rw [hsome]
    rfl
  | @listed c f left found failed bad =>
    obtain ⟨hnone, htowards, hleads⟩ := hok
    have hlisted := @listed_ok v id x hid hall f left found htowards
    refine ⟨hnone, hlisted.1, fun hgood => ?_⟩
    rw [Bool.or_eq_false_iff] at hgood
    exact hlisted.2 (hleads hgood.1)
  | unlisted =>
    obtain ⟨hnone, htowards, -⟩ := hok
    exact ⟨hnone, htowards, nofun⟩
  | ready =>
    obtain ⟨hnone, htowards, hleads⟩ := hok
    refine ⟨fun hf => by rw [hnone hf]; rfl, nofun, fun g => ?_, fun _ => hleads rfl⟩
    exact (htowards g).mono (fun _ hrow => hrow) fun o ho => mem_of_ne_of_mem (by simp) ho
  | exec answer =>
    obtain ⟨hfreshGoal, hgoal, htowards, hleads⟩ := hok
    refine ⟨hfreshGoal, hgoal, exec_towards hgoal hid hall htowards, fun hgood => ?_⟩
    rw [Bool.or_eq_false_iff] at hgood
    exact exec_leads hgoal hid hall htowards (hleads hgood.1) hgood.2
  | retry =>
    obtain ⟨hfreshGoal, hgoal, -, -⟩ := hok
    exact ⟨hfreshGoal, hgoal, towards_apply, fun _ => leads_apply _⟩
  | clearOld =>
    obtain ⟨hfreshGoal, -, -, hleads⟩ := hok
    refine ⟨by simp, fun hf => ?_⟩
    rw [← hfreshGoal hf]
    exact settled_of_leads (hleads rfl)
  | clearNone =>
    obtain ⟨hfreshGoal, -, -, hleads⟩ := hok
    intro _ hf
    rw [← hfreshGoal hf]
    exact .inl (settled_of_leads (hleads rfl))
  | marked => exact fun _ _ => .inr hok
  | cleared => exact fun _ hf => .inl (hok.2 hf)
  | idle => exact hok

/-- **What a reader may rely on stays so** while the state read is the one
stored. -/
theorem Works.sound (hid : isValidEntityID id) (hall : AllRows x.rows) (hfresh : fresh)
    (h : Sound v id stored x (some stage)) : Sound v id stored x' (some stage') := by
  have hok' := hstep.stageOk hok hid hall
  rcases h with hsettled | ⟨hfailed, hmarking⟩
  · exact .inl (hstep.settled hok hid hfresh hsettled)
  cases hstep with
  | markNew _ hnew => exact absurd hfailed hnew
  | clearOld => exact .inl (hok'.2 hfresh)
  | clearNone hnone => exact absurd hfailed hnone
  | marked => cases hmarking
  | _ => exact .inr ⟨hfailed, rfl⟩

/-- **The counter moves with what is counted.** -/
theorem Works.counted :
    (Counted id x (some stage) ↔ Counted id x' (some stage')) ∧ x'.failedCount = x.failedCount ∨
      (¬ Counted id x (some stage) ∧ Counted id x' (some stage')) ∧ x'.failedCount = x.failedCount + 1 ∨
      (Counted id x (some stage) ∧ ¬ Counted id x' (some stage')) ∧ x'.failedCount = x.failedCount - 1 := by
  have hbusy : ∀ st : Stage, st.busy → (Counted id x (some st) ↔ id ∈ x.failedEntities) := by
    intro st h
    have hneither : st.isMarking = false ∧ st.isClearing = false := by
      cases st <;> first | exact ⟨rfl, rfl⟩ | exact nomatch h
    simp [Counted, hneither]
  cases hstep with
  | markNew h hnew =>
    rw [hbusy _ h]
    simp [Counted, hnew, isMarking, isClearing]
  | markOld h hold =>
    rw [hbusy _ h]
    simp [Counted, hold, isMarking]
  | clearOld hold => simp [Counted, hold, isMarking, isClearing]
  | marked =>
    have hmem : id ∈ x.failedEntities := hok
    simp [Counted, hmem, isMarking, isClearing]
  | cleared =>
    have hmem : id ∉ x.failedEntities := hok.1
    simp [Counted, hmem, isMarking, isClearing]
  | _ => exact .inl ⟨Iff.rfl, rfl⟩

end Rows

end Steps

end SemStreams.GraphIndex
