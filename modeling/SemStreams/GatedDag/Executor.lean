import SemStreams.Lib.Run
import SemStreams.GatedDag.Brain
/-!
# Gated DAG — the executor

An evaluation pass reads the whole unit set and submits every dispatchable unit
that is neither claimed nor in flight. A worker commits the unit's claim by
compare-and-set, publishes the dispatch, and takes the claim back when the
publish fails. The claim is durable, the in-flight hint is not: it closes the
window between the submit and the claim.

A consumer writes the markers. To run a unit again it clears the terminal
markers and the claim and sets the dirtied marker, in one write. A dirtied unit
overrides both the claim and the hint, on every pass that reads it so: the
executor does not look at whether the marker has had its dispatch. Nor can it
tell a publish that was not persisted from one whose acknowledgement is lost.
-/

namespace SemStreams.GatedDag

open List Function Option

/-! ## Units and views -/

/-- What `extractGraph` reads of a unit's entity. A marker is present when a
triple carries its predicate, whatever its object. -/
structure UnitState where
  completed : Bool := false
  failed : Bool := false
  dirtied : Bool := false
  claimed : Bool := false
  dependsOn : List String := []
  revision : ℕ := 0
  deriving DecidableEq

def UnitState.terminal (e : UnitState) : Bool := e.completed || e.failed

/-- The ids under the unit prefix and the failure policy. -/
structure Config where
  ids : List String
  stopOnFirstFailure : Bool
  nodup : ids.Nodup

/-- The unit set at one moment. A unit that is not born yet, or is only a stub
some reference left, is `none`. -/
abbrev Units := String → Option UnitState

structure GraphView where
  unitIDs : List String
  dependsOn : String → List String
  markers : MarkerSet
  claimed : List String

def extractGraph (cfg : Config) (units : Units) : GraphView :=
  let having (p : UnitState → Bool) : List String := cfg.ids.filter fun id => (units id).any p
  { unitIDs := cfg.ids.filter fun id => (units id).isSome
    dependsOn := fun id => (units id).elim [] (·.dependsOn)
    markers := ⟨having (·.completed), having (·.failed), having (·.dirtied)⟩
    claimed := having (·.claimed) }

/-! ## A pass -/

/-- Where the worker of a dispatch stands. -/
inductive JobPc
  | queued
  | claiming (rev : ℕ)
  | publishing
  | unclaiming
  | rollingBack (rev : ℕ)
  | releasing
  deriving DecidableEq

structure Job where
  unit : String
  pc : JobPc
  deriving DecidableEq

/-- The in-flight bookkeeping of a pass: a hint goes when its unit is terminal,
dirtied or gone. -/
def dropHints (view : GraphView) (inflight : List String) : List String :=
  inflight.filter fun id => id ∈ view.unitIDs ∧ id ∉ view.markers.completed ∧
    id ∉ view.markers.failed ∧ id ∉ view.markers.dirtied

/-- The guards of the submit loop, for a queue that refuses the units `full`. -/
def submits (cfg : Config) (view : GraphView) (full : String → Bool) (inflight : List String)
    (d : Decision) : Bool :=
  d.dispatchable &&
    !((d.unitID ∈ view.claimed || d.unitID ∈ inflight) && !(d.unitID ∈ view.markers.dirtied)) &&
    !(cfg.stopOnFirstFailure && !view.markers.failed.isEmpty) && !full d.unitID

/-- One turn of the submit loop, on the hints and the submitted work. -/
def submitOne (cfg : Config) (view : GraphView) (full : String → Bool)
    (acc : List String × List Job) (d : Decision) : List String × List Job :=
  if submits cfg view full acc.1 d then (d.unitID :: acc.1, acc.2 ++ [⟨d.unitID, .queued⟩]) else acc

/-- `reEvaluate`, from the unit set it has read. -/
def reEvaluate (cfg : Config) (units : Units) (full : String → Bool)
    (inflight : List String) (jobs : List Job) : List String × List Job :=
  let view := extractGraph cfg units
  (evaluate view.unitIDs view.dependsOn view.markers).foldl (submitOne cfg view full)
    (dropHints view inflight, jobs)

/-! ## The system -/

/-- The bucket, the executor process and two histories no code reads: the
dispatches published and the resets, each by unit. `pass` is the unit set a
pass has read while it holds `evalMu`. -/
structure Executor where
  units : Units
  inflight : List String
  pass : Option Units
  jobs : List Job
  published : String → ℕ
  resets : String → ℕ

/-- How a compare-and-set that matches, or a publish, is answered: it may be
applied and the answer be lost. -/
inductive Answer
  | ok
  | lost
  | failed
  deriving DecidableEq

inductive Event
  | write (id : String) (e : UnitState)
  | read
  | act (full : String → Bool)
  | claimRead (n : ℕ) (ok : Bool)
  | claimWrite (n : ℕ) (answer : Answer)
  | publish (n : ℕ) (answer : Answer)
  | unclaimRead (n : ℕ) (ok : Bool)
  | unclaimWrite (n : ℕ) (answer : Answer)
  | release (n : ℕ)
  | restart

def init : Executor where
  units := fun _ => none
  inflight := []
  pass := none
  jobs := []
  published := fun _ => 0
  resets := fun _ => 0

/-- A reset: the terminal markers and the claim are cleared, dirtied is set. -/
def UnitState.isReset (e : UnitState) : Bool :=
  !e.completed && !e.failed && !e.claimed && e.dirtied

/-- Any other write of a consumer: it may set a terminal marker, drop the
dirtied one and change the edges. -/
def keepsMarkers (old : Option UnitState) (e : UnitState) : Bool :=
  (!old.any (·.completed) || e.completed) && (!old.any (·.failed) || e.failed) &&
    (e.claimed == old.any (·.claimed)) && (!e.dirtied || old.any (·.dirtied))

/-- The reset contract, as a guard on the writes of consumers. -/
def obeysContract (old : Option UnitState) (e : UnitState) : Bool :=
  e.isReset || keepsMarkers old e

def nextRevision (old : Option UnitState) : ℕ := old.elim 1 (·.revision + 1)

/-- The claim of a unit, set or cleared by a compare-and-set at `rev`. -/
def setClaimed (units : Units) (id : String) (rev : ℕ) (claimed : Bool) : Option Units :=
  match units id with
  | some e =>
    if e.revision = rev then
      some (update units id (some { e with claimed := claimed, revision := rev + 1 }))
    else none
  | none => none

/-- A compare-and-set of the claim as the worker sees it: the unit set after it
and whether it was told that the write was applied. -/
def reconcileClaim (units : Units) (id : String) (rev : ℕ) (claimed : Bool) (answer : Answer) :
    Units × Bool :=
  match answer, setClaimed units id rev claimed with
  | .ok, some units' => (units', true)
  | .lost, some units' => (units', false)
  | _, _ => (units, false)

/-- Job `n` at `pc` goes on to `pc'`. -/
def Executor.moveJob (s : Executor) (n : ℕ) (unit : String) (pc : JobPc) : Executor :=
  { s with jobs := s.jobs.set n ⟨unit, pc⟩ }

def step (cfg : Config) (s : Executor) : Event → Option Executor
  | .write id e =>
    if id ∈ cfg.ids ∧ obeysContract (s.units id) e then
      some
        { s with
          units := update s.units id
            (some { e with revision := nextRevision (s.units id) })
          resets := if e.dirtied && !(s.units id).any (·.dirtied) then
            update s.resets id (s.resets id + 1) else s.resets }
    else none
  | .read =>
    match s.pass with
    | none => some { s with pass := some s.units }
    | some _ => none
  | .act full =>
    match s.pass with
    | none => none
    | some units =>
      let (inflight, jobs) := reEvaluate cfg units full s.inflight s.jobs
      some { s with inflight := inflight, jobs := jobs, pass := none }
  | .claimRead n ok =>
    match s.jobs[n]? with
    | some ⟨id, .queued⟩ =>
      match s.units id, ok with
      | some e, true => some (s.moveJob n id (.claiming e.revision))
      | _, _ => some (s.moveJob n id .releasing)
    | _ => none
  | .claimWrite n answer =>
    match s.jobs[n]? with
    | some ⟨id, .claiming rev⟩ =>
      let (units, applied) := reconcileClaim s.units id rev true answer
      some ({ s with units := units }.moveJob n id (if applied then .publishing else .releasing))
    | _ => none
  | .publish n answer =>
    match s.jobs[n]? with
    | some ⟨id, .publishing⟩ =>
      let published := update s.published id (s.published id + 1)
      match answer with
      | .ok => some { s with jobs := s.jobs.eraseIdx n, published := published }
      | .lost => some ({ s with published := published }.moveJob n id .unclaiming)
      | .failed => some (s.moveJob n id .unclaiming)
    | _ => none
  | .unclaimRead n ok =>
    match s.jobs[n]? with
    | some ⟨id, .unclaiming⟩ =>
      match s.units id, ok with
      | some e, true => some (s.moveJob n id (.rollingBack e.revision))
      | _, _ => some (s.moveJob n id .releasing)
    | _ => none
  | .unclaimWrite n answer =>
    match s.jobs[n]? with
    | some ⟨id, .rollingBack rev⟩ =>
      some ({ s with units := (reconcileClaim s.units id rev false answer).1 }.moveJob n id .releasing)
    | _ => none
  | .release n =>
    -- the hint is deleted under `evalMu`, so not while a pass holds it
    match s.jobs[n]?, s.pass with
    | some ⟨id, .releasing⟩, none =>
      some { s with jobs := s.jobs.eraseIdx n, inflight := s.inflight.filter (· ≠ id) }
    | _, _ => none
  | .restart => some { s with inflight := [], pass := none, jobs := [] }

/-! ## A pass, unit by unit -/

section Pass

variable {cfg : Config} {units : Units} {full : String → Bool} {inflight : List String}
  {id : String} {e : UnitState}

theorem nodup_unitIDs : (extractGraph cfg units).unitIDs.Nodup := cfg.nodup.filter _

section Read

variable (hid : id ∈ cfg.ids) (he : units id = some e)

include hid he

theorem mem_claimed : id ∈ (extractGraph cfg units).claimed ↔ e.claimed := by
  simp [extractGraph, hid, he]

theorem mem_dirtied : id ∈ (extractGraph cfg units).markers.dirtied ↔ e.dirtied := by
  simp [extractGraph, hid, he]

theorem mem_completed_or_failed :
    id ∈ (extractGraph cfg units).markers.completed ∨ id ∈ (extractGraph cfg units).markers.failed ↔
      e.terminal := by
  simp [extractGraph, hid, he, UnitState.terminal]

/-- The hint of a unit outlives the bookkeeping while the unit is neither
terminal nor dirtied. -/
theorem mem_dropHints : id ∈ dropHints (extractGraph cfg units) inflight ↔
      id ∈ inflight ∧ e.terminal = false ∧ e.dirtied = false := by
  have hborn : id ∈ (extractGraph cfg units).unitIDs := by simp [extractGraph, hid, he]
  have hterm := mem_completed_or_failed hid he
  have hdirty := mem_dirtied hid he
  simp only [dropHints, mem_filter, decide_eq_true_eq, hborn, true_and, hdirty, Bool.not_eq_true]
  rw [← and_assoc (a := _ ∉ _), ← not_or, hterm, Bool.not_eq_true]

end Read

theorem born_of_mem_dropHints (h : id ∈ dropHints (extractGraph cfg units) inflight) :
    ∃ e, units id = some e := by
  simp only [dropHints, mem_filter, decide_eq_true_eq] at h
  simpa [extractGraph, isSome_iff_exists] using (mem_filter.1 h.2.1).2

/-- The submit loop looks at one unit a turn, so what it submits is settled by
the hints it starts with. -/
theorem foldl_submitOne {ds : List Decision} (hnd : (ds.map Decision.unitID).Nodup) :
    ds.foldl (submitOne cfg view full) (inflight, jobs) =
      (((ds.filter (submits cfg view full inflight)).map Decision.unitID).reverse ++ inflight,
        jobs ++ (ds.filter (submits cfg view full inflight)).map fun d => ⟨d.unitID, .queued⟩) := by
  induction ds generalizing inflight jobs with
  | nil => simp
  | cons d ds ih =>
    obtain ⟨hd, hnd⟩ := nodup_cons.1 hnd
    rw [foldl_cons, submitOne]
    split
    · next hsub =>
      have hrest : ds.filter (submits cfg view full (d.unitID :: inflight)) =
          ds.filter (submits cfg view full inflight) := by
        refine filter_congr fun d' hd' => ?_
        have hne : d'.unitID ≠ d.unitID := fun h => hd (h ▸ List.mem_map_of_mem hd')
        simp [submits, hne]
      rw [ih hnd, hrest, filter_cons_of_pos hsub]
      simp
    · next hsub => rw [ih hnd, filter_cons_of_neg hsub]

def submitted (cfg : Config) (units : Units) (full : String → Bool) (inflight : List String) :
    List String :=
  let view := extractGraph cfg units
  ((evaluate view.unitIDs view.dependsOn view.markers).filter
    (submits cfg view full (dropHints view inflight))).map Decision.unitID

theorem reEvaluate_eq : reEvaluate cfg units full inflight jobs =
      ((submitted cfg units full inflight).reverse ++ dropHints (extractGraph cfg units) inflight,
        jobs ++ (submitted cfg units full inflight).map fun id => ⟨id, .queued⟩) := by
  rw [reEvaluate, foldl_submitOne (nodup_evaluate nodup_unitIDs), submitted, List.map_map]
  rfl

theorem nodup_submitted : (submitted cfg units full inflight).Nodup :=
  (nodup_evaluate nodup_unitIDs).sublist (filter_sublist.map _)

/-- **What a pass submits.** A unit it reads as dirtied, or one that carries no
terminal marker and no claim and has no hint. -/
theorem submitted_spec (hid : id ∈ cfg.ids) (h : id ∈ submitted cfg units full inflight) :
    ∃ e, units id = some e ∧
      (e.dirtied ∨ e.terminal = false ∧ e.claimed = false ∧ id ∉ inflight) := by
  obtain ⟨d, hd, rfl⟩ := List.mem_map.1 h
  obtain ⟨hd, hsub⟩ := mem_filter.1 hd
  obtain ⟨u, hu, rfl⟩ := mem_evaluate.1 hd
  rw [unitID_decideUnit] at hid ⊢
  simp only [submits, unitID_decideUnit, Bool.and_eq_true, Bool.not_eq_true'] at hsub
  obtain ⟨⟨⟨hdisp, hdedup⟩, -⟩, -⟩ := hsub
  obtain ⟨e, he⟩ : ∃ e, units u = some e :=
    isSome_iff_exists.1 (mem_filter.1 hu).2
  refine ⟨e, he, ?_⟩
  cases hdirty : e.dirtied with
  | true => exact .inl rfl
  | false =>
    have hnd : u ∉ (extractGraph cfg units).markers.dirtied := by
      rw [mem_dirtied hid he, hdirty]
      exact Bool.false_ne_true
    have hnt : e.terminal = false := by
      have := not_terminal_of_ready (ready_of_dispatchable hdisp) hnd
      rw [← Bool.not_eq_true, ← mem_completed_or_failed hid he]
      exact not_or.2 this
    simp only [hnd, decide_false, Bool.not_false, Bool.and_true, Bool.or_eq_false_iff,
      decide_eq_false_iff_not] at hdedup
    rw [mem_claimed hid he, mem_dropHints hid he, Bool.not_eq_true] at hdedup
    exact .inr ⟨hnt, hdedup.1, fun hin => hdedup.2 ⟨hin, hnt, hdirty⟩⟩

end Pass

end SemStreams.GatedDag
