import SemStreams.Lib.Slots
import Mathlib.Data.Finset.Card
import SemStreams.Lib.Run
import SemStreams.Lib.KeyedLog
import SemStreams.Revlag.Watermark
import SemStreams.GraphIndex.Lane
/-!
# graph-index — the component

ENTITY_STATES is a log of writes, the rows of the index are derived from it.
The watch delivers revisions in order and observes each in the watermark before
it dispatches it, a deletion at once, an update through the coalescer. Lanes
work off each entity's queue, one work at a time, and complete its revision.
Failed entities are submitted again by the repair loop. A status call reads the
watermark, then the target, then the count of failed entities, one by one.
Everything but the log and the rows is lost when the process ends.

`Inv` is the invariant of all this and `inv_run` the result: after a status call
has reported the index ready for a target that is still the last revision, the
rows of every entity are those of its state.
-/

namespace SemStreams.GraphIndex

open SemStreams.Graph List Function Option Revlag KeyedLog

/-! ## The model -/

/-- A call of `computeIndexStatus` under way. -/
inductive StatusCall
  /-- Past the check of the reset latch. -/
  | entered
  | indexed (indexed : ℕ)
  /-- Asking the store for the last revision. -/
  | asking (indexed : ℕ)
  | target (indexed target : ℕ)

/-- **The component, its store and the entities.** -/
structure Component where
  /-- ENTITY_STATES. -/
  log : KeyedLog String EntityState
  index : Indexer
  /-- The last revision the watch delivered. -/
  cursor : ℕ
  watermark : Watermark String
  /-- The pending revisions of the coalescer. -/
  coalesced : List (String × ℕ)
  /-- The batch a tick took, still to be submitted. -/
  detached : List (String × ℕ)
  queues : String → List ℕ
  lanes : String → Option Stage
  initialEnumerationComplete : Bool
  bootstrapTarget : ℕ
  indexBootstrapped : Bool
  cancelled : Bool
  calls : ℕ → Option StatusCall
  /-- The targets for which the index was reported ready, latest first. -/
  ready : List ℕ

inductive Event
  | upsert (state : EntityState)
  | delete (id : String)
  /-- The watch delivers a revision; the submission fails once the context is
  cancelled. -/
  | deliver (revision commitAt : ℕ) (submitted : Bool)
  /-- The watch has delivered what there was at its start. -/
  | enumerated
  | tick
  | submit (id : String) (revision : ℕ) (submitted : Bool)
  | repair (id : String) (submitted : Bool)
  | take (id : String)
  | work (id : String) (answer : StoreAnswer)
  | complete (id : String)
  | enterStatus (call : ℕ)
  | readIndexed (call : ℕ)
  | askTarget (call : ℕ)
  | readTarget (call : ℕ) (answer : StoreAnswer)
  | report (call : ℕ)
  | cancel
  | crash

/-- No row, no mark. -/
def Indexer.empty : Indexer where
  rows := ⟨fun _ => [], fun _ => none⟩
  failedEntities := []
  failedCount := 0
  resetRequired := false

def init : Component where
  log := []
  index := .empty
  cursor := 0
  watermark := .new
  coalesced := []
  detached := []
  queues := fun _ => []
  lanes := fun _ => none
  initialEnumerationComplete := false
  bootstrapTarget := 0
  indexBootstrapped := false
  cancelled := false
  calls := fun _ => none
  ready := []

/-- A new process on the same store. -/
def Component.restart (s : Component) : Component :=
  { init with log := s.log, index := { Indexer.empty with rows := s.index.rows }, ready := s.ready }

/-- The write was followed by another of its key. -/
def superseded (log : KeyedLog String EntityState) (r : ℕ) : Bool :=
  (log.writeAt r).all fun w => r < log.lastRevision w.1

/-- The watch may deliver this revision next: whatever it skips was superseded. -/
def deliverable (log : KeyedLog String EntityState) (cursor r : ℕ) : Bool :=
  cursor < r && (List.range r).all fun q => q ≤ cursor || superseded log q

/-- `revisionCoalescer.Add`. -/
def coalescerAdd (pending : List (String × ℕ)) (key : String) (revision : ℕ) : List (String × ℕ) :=
  if (pending.lookup key).getD 0 < revision then
    pending.filter (fun p => p.1 ≠ key) ++ [(key, revision)]
  else pending

/-- `revisionCoalescer.Remove`. -/
def coalescerRemove (pending : List (String × ℕ)) (key : String) : List (String × ℕ) :=
  pending.filter fun p => p.1 ≠ key

/-- `submitEntityWork`: the work is dropped where the submission fails. -/
def Component.submitEntityWork (s : Component) (id : String) (revision : ℕ) (submitted : Bool) :
    Component :=
  if submitted then { s with queues := update s.queues id (s.queues id ++ [revision]) } else s

def Component.dispatch (s : Component) (coalescing : Bool) (id : String) (tombstone : Bool)
    (revision : ℕ) (submitted : Bool) : Component :=
  if tombstone then
    { s with coalesced := coalescerRemove s.coalesced id }.submitEntityWork id revision submitted
  else if coalescing then { s with coalesced := coalescerAdd s.coalesced id revision }
  else s.submitEntityWork id revision submitted

def Component.setCall (s : Component) (call : ℕ) (c : Option StatusCall) : Component :=
  { s with calls := update s.calls call c }

/-- `ComputeIndexStatus` and `applyKnownIncompleteOverrides`, as far as `Ready`
goes. -/
def statusReady (indexed target : ℕ) (enumerated : Bool) (failedCount : ℤ) : Bool :=
  (0 < target && target ≤ indexed || target = 0 && enumerated) && !(failedCount > 0)

/-- `latchBootstrap`, with the report of a ready index. -/
def Component.reportStatus (s : Component) (indexed target : ℕ) : Component :=
  let isReady := statusReady indexed target s.initialEnumerationComplete s.index.failedCount
  let applied := s.initialEnumerationComplete && s.bootstrapTarget ≤ indexed
  { s with
    indexBootstrapped := s.indexBootstrapped || isReady || applied
    ready := if isReady then target :: s.ready else s.ready }

/-- **One atomic step.** -/
def step (v : Vocabulary) (coalescing : Bool) (s : Component) : Event → Option Component
  | .upsert state =>
    -- the only writer marshals through the contract, under the entity's own id
    if validateEntityStateContract state then some { s with log := (state.id, some state) :: s.log }
    else none
  | .delete id => if isValidEntityID id then some { s with log := (id, none) :: s.log } else none
  | .deliver revision commitAt submitted =>
    if deliverable s.log s.cursor revision && (submitted || s.cancelled) then
      (s.log.writeAt revision).map fun w =>
        { s with cursor := revision, watermark := s.watermark.observe revision w.1 commitAt }.dispatch
          coalescing w.1 w.2.isNone revision submitted
    else none
  | .enumerated =>
    some { s with bootstrapTarget := s.watermark.observedHigh, initialEnumerationComplete := true }
  | .tick => if s.detached = [] then some { s with coalesced := [], detached := s.coalesced } else none
  | .submit id revision submitted =>
    if (id, revision) ∈ s.detached ∧ (submitted = true ∨ s.cancelled = true) then
      some ({ s with detached := s.detached.erase (id, revision) }.submitEntityWork id revision submitted)
    else none
  | .repair id submitted =>
    if id ∈ s.index.failedEntities ∧ (submitted = true ∨ s.cancelled = true) then
      some (s.submitEntityWork id 0 submitted)
    else none
  | .take id =>
    match s.lanes id, s.queues id with
    | none, revision :: rest =>
      some { s with
        queues := update s.queues id rest
        lanes := update s.lanes id (some (.reading revision)) }
    | _, _ => none
  | .work id answer =>
    (s.lanes id).map fun stage =>
      let r := work v id s.cancelled (s.log.current id) s.index answer stage
      { s with index := r.1, lanes := update s.lanes id (some r.2) }
  | .complete id =>
    match s.lanes id with
    | some (.completing revision) =>
      some { s with
        watermark := if 0 < revision then s.watermark.complete id revision else s.watermark
        lanes := update s.lanes id none }
    | _ => none
  | .enterStatus call =>
    if s.index.resetRequired then none
    else match s.calls call with
      | none => some (s.setCall call (some .entered))
      | some _ => none
  | .readIndexed call =>
    match s.calls call with
    | some .entered => some (s.setCall call (some (.indexed s.watermark.indexed)))
    | _ => none
  | .askTarget call =>
    -- a request on a cancelled context is not sent
    match s.calls call with
    | some (.indexed indexed) =>
      some (s.setCall call (if s.cancelled then none else some (.asking indexed)))
    | _ => none
  | .readTarget call answer =>
    match s.calls call with
    | some (.asking indexed) =>
      some (s.setCall call (if answer = .ok then some (.target indexed s.log.length) else none))
    | _ => none
  | .report call =>
    match s.calls call with
    | some (.target indexed target) => some ((s.reportStatus indexed target).setCall call none)
    | _ => none
  | .cancel => some { s with cancelled := true }
  | .crash => some s.restart

/-! ## The invariant -/

/-- The last revision of the entity was delivered and its work is over. -/
def Drained (s : Component) (id : String) : Prop :=
  s.log.lastRevision id ≤ s.cursor ∧ ∀ p ∈ s.watermark.pending, p.1 ≠ s.log.lastRevision id

/-- What a work for this revision read is still the state stored: nothing newer
was written, or the newest was worked off before. -/
def Fresh (s : Component) (id : String) (revision : ℕ) : Prop :=
  s.log.lastRevision id ≤ revision ∨ Drained s id

/-- A work for the entity waits somewhere. -/
def Queued (s : Component) (id : String) (revision : ℕ) : Prop :=
  revision ∈ s.queues id ∨ (id, revision) ∈ s.coalesced ∨ (id, revision) ∈ s.detached

/-- **What holds for an entity.** -/
structure EntityOk (v : Vocabulary) (s : Component) (id : String) : Prop where
  lane : ∀ stage, s.lanes id = some stage → stage.completion ≤ s.log.length ∧
    StageOk v id s.cancelled (s.log.current id) (Fresh s id stage.completion) s.index stage
  /-- No row is left of an entity that never was. -/
  never : s.log.lastRevision id = 0 → Settled v id (goalOf v id (s.log.current id)) s.index.rows
  sound : s.cancelled = false → Drained s id → Sound v id (s.log.current id) s.index (s.lanes id)

/-- The rows are those of the state stored, and the lane is at work for it. -/
structure Aligned (v : Vocabulary) (s : Component) (id : String) : Prop where
  settled : Settled v id (goalOf v id (s.log.current id)) s.index.rows
  lane : ∀ stage, s.lanes id = some stage →
    StageOk v id s.cancelled (s.log.current id) True s.index stage

def AllDrained (s : Component) : Prop := ∀ id, isValidEntityID id = true → Drained s id

def AllSound (v : Vocabulary) (s : Component) : Prop :=
  ∀ id, isValidEntityID id = true → Sound v id (s.log.current id) s.index (s.lanes id)

/-- **What a status call under way knows**, as long as nothing is written. -/
def CallOk (v : Vocabulary) (s : Component) : StatusCall → Prop
  | .entered => True
  | .indexed indexed => indexed ≤ s.log.length ∧ (s.log.length ≤ indexed → AllDrained s)
  | .asking indexed => indexed ≤ s.log.length ∧
      (s.log.length ≤ indexed → AllDrained s ∧ AllSound v s)
  | .target indexed target => target ≤ s.log.length ∧
      (s.log.length ≤ target → target ≤ indexed → AllDrained s ∧ AllSound v s)

/-- **The invariant of the component.** -/
structure Inv (v : Vocabulary) (s : Component) : Prop where
  stored : ∀ id state, s.log.current id = some state →
    validateEntityStateContract state = true ∧ state.id = id
  written : ∀ r w, s.log.writeAt r = some w → isValidEntityID w.1 = true
  observed : s.watermark.observedHigh = s.cursor
  cursor_le : s.cursor ≤ s.log.length
  pending : ∀ p ∈ s.watermark.pending, ∃ value, s.log.writeAt p.1 = some (p.2.key, value)
  queued : ∀ id c, Queued s id c → isValidEntityID id = true ∧ c ≤ s.log.length
  lanes : ∀ id stage, s.lanes id = some stage → isValidEntityID id = true
  failed : ∀ id ∈ s.index.failedEntities, isValidEntityID id = true
  rows : AllRows s.index.rows
  reset : s.index.resetRequired = false
  counted : ∃ counted : Finset String, s.index.failedCount = counted.card ∧
    ∀ id, id ∈ counted ↔ Counted id s.index (s.lanes id)
  entity : ∀ id, isValidEntityID id = true → EntityOk v s id
  calls : ∀ i call, s.calls i = some call → CallOk v s call
  ready : ∀ t ∈ s.ready, t ≤ s.log.length ∧
    (s.log.length ≤ t → ∀ id, isValidEntityID id = true → Aligned v s id)

variable {v : Vocabulary} {s s' : Component} {id : String}

theorem EntityOk.frame (h : EntityOk v s id) (hlog : s'.log = s.log) (hindex : s'.index = s.index)
    (hlane : s'.lanes id = s.lanes id) (hcancelled : s'.cancelled = s.cancelled)
    (hdrained : Drained s' id → Drained s id) : EntityOk v s' id := by
  refine ⟨?_, ?_, ?_⟩
  · intro stage hstage
    rw [hlane] at hstage
    obtain ⟨hle, hok⟩ := h.lane stage hstage
    rw [hlog, hindex, hcancelled]
    refine ⟨hle, hok.mono fun hfresh => ?_⟩
    unfold Fresh at hfresh ⊢
    rw [hlog] at hfresh
    exact hfresh.imp_right hdrained
  · rw [hlog, hindex]
    exact h.never
  · rw [hlog, hindex, hlane, hcancelled]
    exact fun hc hd => h.sound hc (hdrained hd)

/-- A call keeps what it knows where everything drained stays so. -/
theorem CallOk.frame (h : CallOk v s call) (hlog : s'.log = s.log)
    (hdrained : AllDrained s → AllDrained s') (hsound : AllDrained s → AllSound v s → AllSound v s') :
    CallOk v s' call := by
  have hboth : AllDrained s ∧ AllSound v s → AllDrained s' ∧ AllSound v s' :=
    fun hall => ⟨hdrained hall.1, hsound hall.1 hall.2⟩
  cases call with
  | entered => trivial
  | indexed i =>
    unfold CallOk at h ⊢
    rw [hlog]
    exact ⟨h.1, fun hle => hdrained (h.2 hle)⟩
  | asking i =>
    unfold CallOk at h ⊢
    rw [hlog]
    exact ⟨h.1, fun hle => hboth (h.2 hle)⟩
  | target i t =>
    unfold CallOk at h ⊢
    rw [hlog]
    exact ⟨h.1, fun hle hti => hboth (h.2 hle hti)⟩

/-- The parts of the component the invariant speaks of, queues apart, are the
same. -/
structure SameCore (s s' : Component) : Prop where
  log : s'.log = s.log
  index : s'.index = s.index
  cursor : s'.cursor = s.cursor
  watermark : s'.watermark = s.watermark
  lanes : s'.lanes = s.lanes
  cancelled : s'.cancelled = s.cancelled
  calls : s'.calls = s.calls
  ready : s'.ready = s.ready

theorem Inv.of_sameCore (h : Inv v s) (hcore : SameCore s s')
    (hqueued : ∀ id c, Queued s' id c → isValidEntityID id ∧ c ≤ s.log.length) : Inv v s' := by
  obtain ⟨hlog, hindex, hcursor, hwatermark, hlanes, hcancelled, hcalls, hready⟩ := hcore
  cases s
  cases s'
  subst hlog hindex hcursor hwatermark hlanes hcancelled hcalls hready
  exact { h with
    queued := hqueued
    entity := fun id hid => { h.entity id hid with }
    ready := fun t ht => (h.ready t ht).imp_right fun hall hle id hid => { hall hle id hid with } }

/-! ## What each step keeps -/

/-- **A write makes what was read of its entity stale.** -/
theorem inv_write (h : Inv v s) (hkey : isValidEntityID key)
    (hvalue : ∀ state, value = some state → validateEntityStateContract state ∧ state.id = key) :
    Inv v { s with log := (key, value) :: s.log } := by
  have hcur : ∀ id, id ≠ key → current ((key, value) :: s.log) id = s.log.current id :=
    fun id hne => current_cons_of_ne (Ne.symm hne)
  have hlast : ∀ id, id ≠ key →
      lastRevision ((key, value) :: s.log) id = s.log.lastRevision id :=
    fun id hne => lastRevision_cons_of_ne (Ne.symm hne)
  have hself : lastRevision ((key, value) :: s.log) key = s.log.length + 1 :=
    lastRevision_cons_self
  have hcursor := h.cursor_le
  -- the new revision is beyond the cursor
  have hnot : ¬ Drained { s with log := (key, value) :: s.log } key := by
    rintro ⟨hle, -⟩
    dsimp only at hle
    omega
  have hdrained : ∀ id, id ≠ key →
      (Drained { s with log := (key, value) :: s.log } id ↔ Drained s id) := by
    intro id hne
    unfold Drained
    rw [hlast id hne]
  refine ⟨?_, ?_, h.observed, ?_, ?_, ?_, h.lanes, h.failed, h.rows, h.reset, h.counted, ?_, ?_, ?_⟩
  · intro id state hstate
    by_cases hid : id = key
    · subst hid
      rw [current_cons_self] at hstate
      exact hvalue state hstate
    · rw [hcur id hid] at hstate
      exact h.stored id state hstate
  · intro r w hw
    unfold writeAt at hw
    split at hw
    · cases hw
      exact hkey
    · exact h.written r w hw
  · dsimp only
    rw [length_cons]
    omega
  · intro p hp
    obtain ⟨val, hval⟩ := h.pending p hp
    exact ⟨val, writeAt_cons hval⟩
  · intro id c hc
    obtain ⟨hid, hle⟩ := h.queued id c hc
    refine ⟨hid, ?_⟩
    rw [length_cons]
    omega
  · intro id hid
    have hentity := h.entity id hid
    by_cases hne : id = key
    · subst hne
      refine ⟨?_, ?_, fun _ hd => absurd hd hnot⟩
      · intro stage hstage
        obtain ⟨hle, hok⟩ := hentity.lane stage hstage
        refine ⟨by dsimp only; rw [length_cons]; omega, (StageOk.stale hok).mono ?_⟩
        rintro (hfresh | hfresh)
        · dsimp only at hfresh
          omega
        · exact hnot hfresh
      · intro hzero
        dsimp only at hzero
        omega
    · refine ⟨?_, ?_, ?_⟩
      · intro stage hstage
        obtain ⟨hle, hok⟩ := hentity.lane stage hstage
        refine ⟨by dsimp only; rw [length_cons]; omega, ?_⟩
        rw [hcur id hne]
        refine hok.mono fun hfresh => ?_
        unfold Fresh at hfresh ⊢
        rw [hlast id hne] at hfresh
        exact hfresh.imp_right (hdrained id hne).1
      · rw [hcur id hne, hlast id hne]
        exact hentity.never
      · rw [hcur id hne, hdrained id hne]
        exact hentity.sound
  · intro i call hcall
    have hold := h.calls i call hcall
    cases call with
    | entered => trivial
    | _ =>
      refine ⟨by dsimp only; rw [length_cons]; exact Nat.le_succ_of_le hold.1, fun hle => ?_⟩
      have hn := hold.1
      rw [length_cons] at hle
      omega
  · intro t ht
    have hold := (h.ready t ht).1
    rw [length_cons]
    exact ⟨by omega, fun hle => by omega⟩

/-- The counted entities after a step that moves one. -/
theorem exists_counted {lanes : String → Option Stage} {x : Indexer} {stage' : Option Stage}
    (h : ∃ counted : Finset String, x.failedCount = counted.card ∧ ∀ k, k ∈ counted ↔ Counted k x (lanes k))
    (hothers : ∀ k, k ≠ id → (k ∈ x'.failedEntities ↔ k ∈ x.failedEntities))
    (hmove : (Counted id x (lanes id) ↔ Counted id x' stage') ∧ x'.failedCount = x.failedCount ∨
      (¬ Counted id x (lanes id) ∧ Counted id x' stage') ∧ x'.failedCount = x.failedCount + 1 ∨
      (Counted id x (lanes id) ∧ ¬ Counted id x' stage') ∧ x'.failedCount = x.failedCount - 1) :
    ∃ counted : Finset String, x'.failedCount = counted.card ∧
      ∀ k, k ∈ counted ↔ Counted k x' (update lanes id stage' k) := by
  obtain ⟨counted, hcard, hmem⟩ := h
  have hrest : ∀ k, k ≠ id → (Counted k x' (update lanes id stage' k) ↔ k ∈ counted) := by
    intro k hk
    rw [hmem, update_of_ne hk]
    unfold Counted
    rw [hothers k hk]
  have hself : Counted id x' (update lanes id stage' id) ↔ Counted id x' stage' := by
    rw [update_self]
  rcases hmove with ⟨hsame, hcount⟩ | ⟨⟨hbefore, hafter⟩, hcount⟩ | ⟨⟨hbefore, hafter⟩, hcount⟩
  · refine ⟨counted, by rw [hcount, hcard], fun k => ?_⟩
    by_cases hk : k = id
    · rw [hk, hself, hmem, hsame]
    · exact (hrest k hk).symm
  · have hnot : id ∉ counted := fun hid => hbefore ((hmem id).1 hid)
    refine ⟨insert id counted, ?_, fun k => ?_⟩
    · rw [hcount, hcard, Finset.card_insert_of_notMem hnot]
      omega
    · by_cases hk : k = id
      · rw [hk, hself]
        exact ⟨fun _ => hafter, fun _ => Finset.mem_insert_self _ _⟩
      · rw [hrest k hk, Finset.mem_insert]
        exact or_iff_right hk
  · have hin : id ∈ counted := (hmem id).2 hbefore
    refine ⟨counted.erase id, ?_, fun k => ?_⟩
    · have hpos := Finset.card_pos.2 ⟨id, hin⟩
      rw [hcount, hcard, Finset.card_erase_of_mem hin]
      omega
    · by_cases hk : k = id
      · rw [hk, hself]
        exact ⟨fun hid => absurd hid (Finset.notMem_erase _ _), fun hid => absurd hid hafter⟩
      · rw [hrest k hk, Finset.mem_erase]
        exact and_iff_right hk

/-- **A lane at work.** -/
theorem inv_work (h : Inv v s) {stage stage' : Stage} (hlane : s.lanes id = some stage)
    (hstep : Works v id s.cancelled (s.log.current id) s.index stage x' stage') :
    Inv v { s with index := x', lanes := update s.lanes id (some stage') } := by
  have hid := h.lanes id stage hlane
  have hentity := h.entity id hid
  obtain ⟨hle, hok⟩ := hentity.lane stage hlane
  have hself : update s.lanes id (some stage') id = some stage' := update_self _ _ _
  have hother : ∀ k, k ≠ id → update s.lanes id (some stage') k = s.lanes k :=
    fun k hk => update_of_ne hk _ _
  have hdrained : ∀ k, Drained { s with index := x', lanes := update s.lanes id (some stage') } k ↔
      Drained s k := fun _ => Iff.rfl
  -- what is sound stays sound, for this entity because its lane works for the state stored
  have hsound : ∀ k, isValidEntityID k = true → Drained s k →
      Sound v k (s.log.current k) s.index (s.lanes k) →
      Sound v k (s.log.current k) x' (update s.lanes id (some stage') k) := by
    intro k hk hd hs
    by_cases hkid : k = id
    · subst hkid
      rw [hself]
      rw [hlane] at hs
      exact hstep.sound hok hid h.rows (.inr hd) hs
    · rw [hother k hkid]
      exact hs.of_agree (hstep.agree hok hk hkid) (hstep.mem_failedEntities hkid)
  refine ⟨h.stored, h.written, h.observed, h.cursor_le, h.pending, h.queued, ?_, ?_,
    hstep.allRows hok h.rows, hstep.resetRequired_eq.trans h.reset, ?_, ?_, ?_, ?_⟩
  · intro k st hst
    by_cases hkid : k = id
    · rw [hkid]
      exact hid
    · exact h.lanes k st ((hother k hkid).symm.trans hst)
  · intro k hk
    rcases hstep.failedEntities_subset hk with hk | rfl
    · exact h.failed k hk
    · exact hid
  · refine exists_counted h.counted (fun k hk => hstep.mem_failedEntities hk) ?_
    rw [hlane]
    exact hstep.counted hok
  · intro k hk
    by_cases hkid : k = id
    · subst hkid
      refine ⟨?_, fun hzero => ?_, fun hc hd => hsound k hk hd (hentity.sound hc hd)⟩
      · intro st hst
        have hst : stage' = st := Option.some.inj (hself.symm.trans hst)
        subst hst
        rw [hstep.completion_eq]
        exact ⟨hle, hstep.stageOk hok hid h.rows⟩
      · exact hstep.settled hok hid (.inl (by rw [hzero]; exact Nat.zero_le _)) (hentity.never hzero)
    · have hagree := hstep.agree hok hk hkid
      have hfailed := hstep.mem_failedEntities hkid
      refine ⟨?_, fun hzero => ((h.entity k hk).never hzero).of_agree hagree,
        fun hc hd => hsound k hk hd ((h.entity k hk).sound hc hd)⟩
      intro st hst
      obtain ⟨hle', hok'⟩ := (h.entity k hk).lane st ((hother k hkid).symm.trans hst)
      exact ⟨hle', hok'.of_agree hagree hfailed⟩
  · intro i call hcall
    exact (h.calls i call hcall).frame rfl (fun hall => hall)
      fun hall hsounds k hk => hsound k hk (hall k hk) (hsounds k hk)
  · intro t ht
    refine ⟨(h.ready t ht).1, fun hlen k hk => ?_⟩
    have haligned := (h.ready t ht).2 hlen
    by_cases hkid : k = id
    · subst hkid
      have hok := (haligned k hk).lane stage hlane
      refine ⟨hstep.settled hok hid trivial (haligned k hk).settled, fun st hst => ?_⟩
      have hst : stage' = st := Option.some.inj (hself.symm.trans hst)
      subst hst
      exact hstep.stageOk hok hid h.rows
    · have hagree := hstep.agree hok hk hkid
      refine ⟨(haligned k hk).settled.of_agree hagree, fun st hst => ?_⟩
      exact ((haligned k hk).lane st ((hother k hkid).symm.trans hst)).of_agree hagree
        (hstep.mem_failedEntities hkid)

variable {w : String × Option EntityState} {r : ℕ}

theorem drained_of_deliver (h : Inv v s) (hr : deliverable s.log s.cursor r)
    (hd : Drained { s with cursor := r, watermark := s.watermark.observe r w.1 at_ } id) :
    Drained s id := by
  unfold deliverable at hr
  rw [Bool.and_eq_true, decide_eq_true_eq, List.all_eq_true] at hr
  obtain ⟨_, hskip⟩ := hr
  obtain ⟨hle, hnone⟩ := hd
  dsimp only at hle hnone
  have hrpos : r ≠ 0 := by omega
  have hmem := fun p => @mem_pending_observe String p r s.watermark hrpos w.1 at_
  -- the delivered revision is in flight, so it is not the entity's last
  have hne : s.log.lastRevision id ≠ r := by
    intro heq
    exact hnone (r, ⟨w.1, at_⟩) ((hmem _).2 (.inr rfl)) heq.symm
  have hcursor : s.log.lastRevision id ≤ s.cursor := by
    by_contra hgt
    have hbetween := hskip (s.log.lastRevision id) (mem_range.2 (by omega))
    rw [Bool.or_eq_true, decide_eq_true_eq] at hbetween
    rcases hbetween with hle' | hsuper
    · exact hgt hle'
    -- the last revision of a key is not superseded
    obtain ⟨_, hvalue⟩ := exists_writeAt_lastRevision
      (show s.log.lastRevision id ≠ 0 by omega)
    unfold superseded at hsuper
    rw [hvalue] at hsuper
    simp at hsuper
  refine ⟨hcursor, fun p hp => hnone p ((hmem p).2 (.inl ⟨hp, ?_⟩))⟩
  have hple := s.watermark.pending_le p hp
  rw [h.observed] at hple
  omega

/-- **The watch delivers and observes.** -/
theorem inv_deliver (h : Inv v s) (hr : deliverable s.log s.cursor r)
    (hw : s.log.writeAt r = some w) :
    Inv v { s with cursor := r, watermark := s.watermark.observe r w.1 at_ } := by
  have hlt : s.cursor < r := by
    unfold deliverable at hr
    rw [Bool.and_eq_true, decide_eq_true_eq] at hr
    exact hr.1
  have hrpos : r ≠ 0 := by omega
  -- with a revision to deliver not everything is drained
  have hnot : ¬ AllDrained s := by
    intro hall
    have hle := (hall w.1 (h.written r w hw)).1
    have hlast := le_lastRevision hw
    omega
  refine ⟨h.stored, h.written, ?_, writeAt_le_length hw, ?_, h.queued, h.lanes, h.failed, h.rows,
    h.reset, h.counted, ?_, ?_, ?_⟩
  · dsimp only
    rw [observe_observedHigh _ hrpos, h.observed]
    omega
  · intro p hp
    rcases (mem_pending_observe _ hrpos _ _).1 hp with ⟨hp, -⟩ | rfl
    · exact h.pending p hp
    · exact ⟨w.2, hw⟩
  · exact fun k hk => (h.entity k hk).frame rfl rfl rfl rfl (drained_of_deliver h hr)
  · intro i call hcall
    exact (h.calls i call hcall).frame rfl (fun hall => absurd hall hnot)
      fun hall => absurd hall hnot
  · exact fun t ht => (h.ready t ht).imp_right fun hall hle k hk => { hall hle k hk with }

/-- The lane of an entity takes up work, or is done with it: revisions are
drained of this entity only, and its mark is settled. -/
theorem inv_lane (h : Inv v s) {lane : Option Stage} {w : Watermark String}
    (hid : isValidEntityID id) (hobserved : w.observedHigh = s.watermark.observedHigh)
    (hpending : ∀ p ∈ w.pending, p ∈ s.watermark.pending)
    (hothers : ∀ p ∈ s.watermark.pending, p.2.key ≠ id → p ∈ w.pending)
    (hmarking : (s.lanes id).any Stage.isMarking = false ∧ lane.any Stage.isMarking = false)
    (hclearing : (s.lanes id).any Stage.isClearing = false ∧ lane.any Stage.isClearing = false)
    (hlane : ∀ stage, lane = some stage → stage.completion ≤ s.log.length ∧
      ∀ fresh, StageOk v id s.cancelled (s.log.current id) fresh s.index stage)
    (hself : s.cancelled = false → Drained { s with watermark := w } id →
      Sound v id (s.log.current id) s.index lane) :
    Inv v { s with watermark := w, lanes := update s.lanes id lane } := by
  have hupdate : update s.lanes id lane id = lane := update_self _ _ _
  have hother : ∀ k, k ≠ id → update s.lanes id lane k = s.lanes k :=
    fun k hk => update_of_ne hk _ _
  have hsound : ∀ k, Sound v k (s.log.current k) s.index (s.lanes k) →
      Sound v k (s.log.current k) s.index (update s.lanes id lane k) := by
    intro k hs
    by_cases hkid : k = id
    · subst hkid
      rw [hupdate]
      exact hs.imp_right fun hf => ⟨hf.1, hmarking.2⟩
    · rw [hother k hkid]
      exact hs
  -- another entity's last revision is not among those drained
  have hdrained : ∀ k, k ≠ id → Drained { s with watermark := w } k → Drained s k := by
    rintro k hk ⟨hle, hnone⟩
    refine ⟨hle, fun p hp heq => hnone p (hothers p hp ?_) heq⟩
    intro hkey
    obtain ⟨_, hvalue⟩ := h.pending p hp
    have hzero : s.log.lastRevision k ≠ 0 := by
      have hpos := s.watermark.pending_pos p hp
      omega
    obtain ⟨_, hvalue'⟩ := exists_writeAt_lastRevision hzero
    rw [heq, hvalue', Option.some.injEq, Prod.mk.injEq] at hvalue
    exact hk (hvalue.1.trans hkey)
  refine ⟨h.stored, h.written, hobserved.trans h.observed, h.cursor_le,
    fun p hp => h.pending p (hpending p hp),
    h.queued, ?_, h.failed, h.rows, h.reset, ?_, ?_, ?_, ?_⟩
  · intro k stage hstage
    by_cases hkid : k = id
    · rw [hkid]
      exact hid
    · exact h.lanes k stage ((hother k hkid).symm.trans hstage)
  · refine exists_counted h.counted (fun _ _ => Iff.rfl) (.inl ⟨?_, rfl⟩)
    unfold Counted
    rw [hmarking.1, hmarking.2, hclearing.1, hclearing.2]
  · intro k hk
    by_cases hkid : k = id
    · subst hkid
      refine ⟨fun stage hstage => ?_, (h.entity k hk).never, fun hc hd => ?_⟩
      · obtain ⟨hle, hok⟩ := hlane stage (hupdate.symm.trans hstage)
        exact ⟨hle, hok _⟩
      · dsimp only
        rw [hupdate]
        exact hself hc hd
    · exact (h.entity k hk).frame rfl rfl (hother k hkid) rfl (hdrained k hkid)
  · intro i call hcall
    refine (h.calls i call hcall).frame rfl (fun hall k hk => ?_) fun _ hall k hk => hsound k (hall k hk)
    exact ⟨(hall k hk).1, fun p hp => (hall k hk).2 p (hpending p hp)⟩
  · intro t ht
    refine ⟨(h.ready t ht).1, fun hlen k hk => ?_⟩
    have haligned := (h.ready t ht).2 hlen k hk
    by_cases hkid : k = id
    · subst hkid
      exact ⟨haligned.settled, fun stage hstage => (hlane stage (hupdate.symm.trans hstage)).2 _⟩
    · exact ⟨haligned.settled, fun stage hstage => haligned.lane stage ((hother k hkid).symm.trans hstage)⟩

variable {c : ℕ}

/-- **A work is over**: its revision is drained where the entity's rows are in
line with what is stored, or the entity is marked. -/
theorem inv_complete (h : Inv v s) (hlane : s.lanes id = some (.completing c)) : Inv v { s with
      watermark := if 0 < c then s.watermark.complete id c else s.watermark
      lanes := update s.lanes id none } := by
  have hid := h.lanes id _ hlane
  have hmem : ∀ p, p ∈ (s.watermark.complete id c).pending ↔
      p ∈ s.watermark.pending ∧ Watermark.drains id c p = false := by
    intro p
    rw [complete_pending, mem_filter, Bool.not_eq_true']
  have hsound : s.cancelled = false → Fresh s id c → Sound v id (s.log.current id) s.index none := by
    intro hc hfresh
    exact (((h.entity id hid).lane _ hlane).2 hc hfresh).imp_right fun hf => ⟨hf, rfl⟩
  have hflags : (s.lanes id).any Stage.isMarking = false ∧ (s.lanes id).any Stage.isClearing = false := by
    rw [hlane]
    exact ⟨rfl, rfl⟩
  refine inv_lane h hid ?_ ?_ ?_ ⟨hflags.1, rfl⟩ ⟨hflags.2, rfl⟩ nofun fun hc hd => hsound hc ?_
  · split
    · exact complete_observedHigh _ _ _
    · rfl
  · intro p hp
    split at hp
    · exact ((hmem p).1 hp).1
    · exact hp
  · intro p hp hkey
    split
    · refine (hmem p).2 ⟨hp, ?_⟩
      unfold Watermark.drains
      rw [decide_eq_false hkey, Bool.false_and]
    · exact hp
  · by_cases hle : s.log.lastRevision id ≤ c
    · exact .inl hle
    refine .inr ⟨hd.1, fun p hp heq => ?_⟩
    refine hd.2 p ?_ heq
    split
    · refine (hmem p).2 ⟨hp, ?_⟩
      unfold Watermark.drains
      rw [decide_eq_false (fun hpc : p.1 ≤ c => hle (heq ▸ hpc)), Bool.and_false]
    · exact hp

theorem inv_take (h : Inv v s) (hid : isValidEntityID id) (hc : c ≤ s.log.length)
    (hlane : s.lanes id = none) :
    Inv v { s with lanes := update s.lanes id (some (.reading c)) } := by
  have hflags : (s.lanes id).any Stage.isMarking = false ∧ (s.lanes id).any Stage.isClearing = false := by
    rw [hlane]
    exact ⟨rfl, rfl⟩
  refine inv_lane h hid rfl (fun _ hp => hp) (fun _ hp _ => hp) ⟨hflags.1, rfl⟩ ⟨hflags.2, rfl⟩ ?_ ?_
  · intro _ hstage
    cases hstage
    exact ⟨hc, fun _ => trivial⟩
  · intro hcancelled hd
    have hsound := (h.entity id hid).sound hcancelled hd
    exact hsound.imp_right fun hf => ⟨hf.1, rfl⟩

/-! The queues. -/

theorem sameCore_submitEntityWork (s : Component) (id : String) (c : ℕ) (submitted : Bool) :
    SameCore s (s.submitEntityWork id c submitted) := by
  unfold Component.submitEntityWork
  split <;> exact ⟨rfl, rfl, rfl, rfl, rfl, rfl, rfl, rfl⟩

variable {submitted : Bool}

theorem queued_submitEntityWork (h : Queued (s.submitEntityWork id c submitted) k r) :
    Queued s k r ∨ (k = id ∧ r = c) := by
  unfold Component.submitEntityWork at h
  split at h
  · rcases h with h | h | h
    · by_cases hk : k = id
      · subst hk
        dsimp only at h
        rw [update_self, mem_append, mem_singleton] at h
        exact h.imp .inl fun hr => ⟨rfl, hr⟩
      · dsimp only at h
        rw [update_of_ne hk] at h
        exact .inl (.inl h)
    · exact .inl (.inr (.inl h))
    · exact .inl (.inr (.inr h))
  · exact .inl h

theorem inv_submitEntityWork (h : Inv v s) (hid : isValidEntityID id) (hc : c ≤ s.log.length) :
    Inv v (s.submitEntityWork id c submitted) := by
  refine h.of_sameCore (sameCore_submitEntityWork s id c submitted) fun k r hr => ?_
  rcases queued_submitEntityWork hr with hr | ⟨rfl, rfl⟩
  · exact h.queued k r hr
  · exact ⟨hid, hc⟩

/-- A coalescer that gains at most this revision. -/
theorem inv_coalesced (h : Inv v s)
    (hpending : ∀ p ∈ pending, p ∈ s.coalesced ∨ isValidEntityID p.1 ∧ p.2 ≤ s.log.length) :
    Inv v { s with coalesced := pending } := by
  refine h.of_sameCore ⟨rfl, rfl, rfl, rfl, rfl, rfl, rfl, rfl⟩ fun k r hr => ?_
  rcases hr with hr | hr | hr
  · exact h.queued k r (.inl hr)
  · rcases hpending _ hr with hr | hr
    · exact h.queued k r (.inr (.inl hr))
    · exact hr
  · exact h.queued k r (.inr (.inr hr))

variable {coalescing : Bool}

theorem inv_dispatch (h : Inv v s) (hid : isValidEntityID id)
    (hr : r ≤ s.log.length) : Inv v (s.dispatch coalescing id tombstone r submitted) := by
  unfold Component.dispatch
  split
  · have hremove : Inv v { s with coalesced := coalescerRemove s.coalesced id } :=
      inv_coalesced h fun p hp => .inl (mem_of_mem_filter hp)
    exact inv_submitEntityWork hremove hid hr
  split
  · refine inv_coalesced h fun p hp => ?_
    unfold coalescerAdd at hp
    split at hp
    · rw [mem_append, mem_singleton] at hp
      rcases hp with hp | rfl
      · exact .inl (mem_of_mem_filter hp)
      · exact .inr ⟨hid, hr⟩
    · exact .inl hp
  · exact inv_submitEntityWork h hid hr

/-! Status calls. -/

theorem inv_setCall (h : Inv v s) {i : ℕ} {c : Option StatusCall}
    (hc : ∀ call, c = some call → CallOk v s call) : Inv v (s.setCall i c) := by
  refine { h with
    entity := fun k hk => { h.entity k hk with }
    calls := forall_slot_update hc h.calls
    ready := fun t ht => (h.ready t ht).imp_right fun hall hle k hk => { hall hle k hk with } }

/-- **Caught up with the log, nothing is left to work off.** -/
theorem allDrained_of_indexed (h : Inv v s) (hle : s.log.length ≤ s.watermark.indexed) : AllDrained s := by
  have hhigh := indexed_le_observedHigh s.watermark
  rw [h.observed] at hhigh
  intro id _
  have hlast := lastRevision_le_length s.log id
  refine ⟨by omega, fun p hp heq => ?_⟩
  have hlt := lt_of_mem_pending hp
  omega

theorem callOk_indexed (h : Inv v s) : CallOk v s (.indexed s.watermark.indexed) := by
  have hhigh := indexed_le_observedHigh s.watermark
  have hcursor := h.cursor_le
  rw [h.observed] at hhigh
  exact ⟨by omega, allDrained_of_indexed h⟩

/-- **The report of a ready index.** -/
theorem inv_reportStatus (h : Inv v s) (hcall : CallOk v s (.target indexed target)) :
    Inv v (s.reportStatus indexed target) := by
  have hready : ∀ t ∈ (s.reportStatus indexed target).ready, t ≤ s.log.length ∧
      (s.log.length ≤ t → ∀ id, isValidEntityID id → Aligned v s id) := by
    intro t ht
    simp only [Component.reportStatus] at ht
    split at ht
    · rename_i hstatus
      rcases mem_cons.1 ht with rfl | ht
      · unfold statusReady at hstatus
        simp only [Bool.and_eq_true, Bool.or_eq_true, decide_eq_true_eq, Bool.not_eq_true',
          decide_eq_false_iff_not] at hstatus
        obtain ⟨_, _⟩ := hstatus
        refine ⟨hcall.1, fun hlen id hid => ?_⟩
        obtain ⟨hdrained, hsound⟩ := hcall.2 hlen (by omega)
        obtain ⟨counted, _, hmem⟩ := h.counted
        have hempty : counted = ∅ := by
          rw [← Finset.card_eq_zero]
          omega
        have hnone : ¬ Counted id s.index (s.lanes id) := by
          rw [← hmem, hempty]
          exact Finset.notMem_empty id
        refine ⟨?_, fun stage hstage => ?_⟩
        · rcases hsound id hid with hsettled | hfailed
          · exact hsettled
          · exact absurd (.inl hfailed) hnone
        · exact ((h.entity id hid).lane stage hstage).2.mono fun _ => .inr (hdrained id hid)
      · exact h.ready t ht
    · exact h.ready t ht
  exact { h with
    entity := fun k hk => { h.entity k hk with }
    ready := fun t ht => (hready t ht).imp_right fun hall hle k hk => { hall hle k hk with } }

theorem inv_cancel (h : Inv v s) : Inv v { s with cancelled := true } := by
  refine { h with entity := fun k hk => ?_, ready := ?_ }
  · refine ⟨fun stage hstage => ?_, (h.entity k hk).never, nofun⟩
    obtain ⟨hle, hok⟩ := (h.entity k hk).lane stage hstage
    exact ⟨hle, hok.cancel⟩
  · refine fun t ht => ⟨(h.ready t ht).1, fun hlen k hk => ?_⟩
    have haligned := (h.ready t ht).2 hlen k hk
    exact ⟨haligned.settled, fun stage hstage => (haligned.lane stage hstage).cancel⟩

/-- **A restart forgets the marks with everything that was drained.** -/
theorem inv_restart (h : Inv v s) : Inv v s.restart := by
  refine ⟨h.stored, h.written, rfl, Nat.zero_le _, nofun, ?_, nofun, nofun, h.rows, rfl, ⟨∅, rfl, ?_⟩, ?_,
    nofun, ?_⟩
  · rintro id c (hc | hc | hc) <;> cases hc
  · intro id
    simp [Counted, Component.restart, init, Indexer.empty]
  · intro id hid
    refine ⟨?_, (h.entity id hid).never, fun _ hd => .inl ((h.entity id hid).never ?_)⟩
    · rintro _ ⟨⟩
    · exact Nat.le_zero.1 hd.1
  · refine fun t ht => ⟨(h.ready t ht).1, fun hlen k hk => ⟨((h.ready t ht).2 hlen k hk).settled, ?_⟩⟩
    rintro _ ⟨⟩

/-- **Every step keeps the invariant.** -/
theorem inv_step {e : Event} (h : Inv v s) (hstep : step v coalescing s e = some s') :
    Inv v s' := by
  cases e with
      (simp only [step] at hstep; (try split at hstep <;> try contradiction); try cases hstep)
  | upsert state =>
    rename_i hstate
    exact inv_write h (contract_id hstate) fun st hst => Option.some.inj hst ▸ ⟨hstate, rfl⟩
  | delete id => exact inv_write h ‹_› nofun
  | deliver r commitAt submitted =>
    rename_i hnext
    obtain ⟨w, hw, rfl⟩ := map_eq_some_iff.1 hstep
    exact inv_dispatch (inv_deliver h (Bool.and_eq_true_iff.1 hnext).1 hw) (h.written r w hw) (writeAt_le_length hw)
  | enumerated => exact h.of_sameCore ⟨rfl, rfl, rfl, rfl, rfl, rfl, rfl, rfl⟩ h.queued
  | tick =>
    refine h.of_sameCore ⟨rfl, rfl, rfl, rfl, rfl, rfl, rfl, rfl⟩ fun k c hc => ?_
    rcases hc with hc | hc | hc
    · exact h.queued k c (.inl hc)
    · cases hc
    · exact h.queued k c (.inr (.inl hc))
  | submit id r submitted =>
    rename_i hguard
    obtain ⟨hid, hr⟩ := h.queued id r (.inr (.inr hguard.1))
    have herase : Inv v { s with detached := s.detached.erase (id, r) } := by
      refine h.of_sameCore ⟨rfl, rfl, rfl, rfl, rfl, rfl, rfl, rfl⟩ fun k c hc => h.queued k c ?_
      exact hc.imp_right (Or.imp_right mem_of_mem_erase)
    exact inv_submitEntityWork herase hid hr
  | repair id submitted =>
    rename_i hguard
    exact inv_submitEntityWork h (h.failed id hguard.1) (Nat.zero_le _)
  | take id =>
    rename_i r rest hlane hqueue
    obtain ⟨hid, hr⟩ := h.queued id r (.inl (by rw [hqueue]; exact mem_cons_self))
    have hrest : Inv v { s with queues := update s.queues id rest } := by
      refine h.of_sameCore ⟨rfl, rfl, rfl, rfl, rfl, rfl, rfl, rfl⟩ fun k c hc => h.queued k c ?_
      refine hc.imp_left fun hc => ?_
      by_cases hk : k = id
      · subst hk
        dsimp only at hc
        rw [update_self] at hc
        rw [hqueue]
        exact mem_cons_of_mem _ hc
      · dsimp only at hc
        rwa [update_of_ne hk] at hc
    exact inv_take hrest hid hr hlane
  | work id answer =>
    obtain ⟨stage, hlane, rfl⟩ := map_eq_some_iff.1 hstep
    exact inv_work h hlane
      (works_of_work (h.lanes id stage hlane) fun state hstate => h.stored id state hstate)
  | complete id =>
    rename_i c hlane
    exact inv_complete h hlane
  | enterStatus i =>
    split at hstep <;> cases hstep
    exact inv_setCall h fun call hcall => by rw [← Option.some.inj hcall]; trivial
  | readIndexed i =>
    exact inv_setCall h fun call hcall => by rw [← Option.some.inj hcall]; exact callOk_indexed h
  | askTarget i =>
    rename_i n hcall
    obtain ⟨hle, hdrained⟩ := h.calls i _ hcall
    refine inv_setCall h fun call hset => ?_
    obtain ⟨hcancelled, hset⟩ := ite_none_left_eq_some.1 hset
    cases hset
    -- not cancelled, so what is drained is sound
    exact ⟨hle, fun hlen => ⟨hdrained hlen, fun k hk =>
      (h.entity k hk).sound (Bool.not_eq_true _ ▸ hcancelled) (hdrained hlen k hk)⟩⟩
  | readTarget i answer =>
    rename_i n hcall
    obtain ⟨-, hall⟩ := h.calls i _ hcall
    refine inv_setCall h fun call hset => ?_
    obtain ⟨_, hset⟩ := ite_none_right_eq_some.1 hset
    cases hset
    exact ⟨Nat.le_refl _, fun _ hle => hall hle⟩
  | report i =>
    rename_i n t hcall
    exact inv_setCall (inv_reportStatus h (h.calls i _ hcall)) (by simp)
  | cancel => exact inv_cancel h
  | crash => exact inv_restart h

/-- Without entities there is nothing to index. -/
theorem inv_init (v : Vocabulary) : Inv v init := by
  have hsettled : ∀ id, Settled v id (goalOf v id none) init.index.rows :=
    fun _ => ⟨fun _ _ _ => Iff.rfl, rfl⟩
  refine ⟨nofun, nofun, rfl, Nat.le_refl _, nofun, ?_, nofun, nofun, nofun, rfl, ⟨∅, rfl, ?_⟩, ?_,
    nofun, nofun⟩
  · rintro id c (hc | hc | hc) <;> cases hc
  · intro id
    simp [Counted, init, Indexer.empty]
  · intro id _
    refine ⟨?_, fun _ => hsettled id, fun _ _ => .inl (hsettled id)⟩
    rintro _ ⟨⟩

/-- **So does every run.** -/
theorem inv_run (h : run (step v coalescing) init es = some s) : Inv v s :=
  run_invariant (fun _ _ _ hinv hstep => inv_step hinv hstep) (inv_init v) h

end SemStreams.GraphIndex
