import SemStreams.Lib.Run
import Mathlib.Data.List.Infix
import Mathlib.Algebra.Order.BigOperators.Group.Finset
/-!
# Dispatch — the keyed pool

A pool of lanes, each one goroutine behind a bounded channel. An item goes to
the lane its key hashes to, so items with one key are processed one after the
other in the order they were accepted.

Acceptance and shutdown race. A submit checks `stopped` and registers itself in
`submitWG` under one lock and sends to its lane afterwards; the coordinator that
`Stop` wakes waits for the registered submits before it lets the lanes drain,
and for the lanes before it reports completion. `Stop` takes effect for a submit
that comes after it when `stopped` is set, and for the pool when the drain
begins: a submit that was registered before may still be accepted in between.

The state carries two histories no code reads: the items accepted, numbered in
the order of their sends, and the starts and ends of `Process`.
-/

namespace SemStreams.Dispatch

open List Function Option

/-! ## Configuration -/

/-- `KeyedConfig`, as `NewKeyedPool` admits it. -/
structure KeyedConfig (W : Type*) where
  lanes : ℕ
  queueDepth : ℕ
  keyOf : W → String
  lanes_pos : 0 < lanes
  queueDepth_pos : 0 < queueDepth

/-- FNV-1a over 64 bits. -/
def fnv1a (bytes : List UInt8) : UInt64 :=
  bytes.foldl (fun h b => (h ^^^ b.toUInt64) * 1099511628211) 14695981039346656037

variable {W : Type*} (cfg : KeyedConfig W)

def KeyedConfig.laneFor (work : W) : ℕ :=
  (fnv1a ((cfg.keyOf work).toList.flatMap String.utf8EncodeChar)).toNat % cfg.lanes

theorem KeyedConfig.laneFor_lt (work : W) : cfg.laneFor work < cfg.lanes :=
  Nat.mod_lt _ cfg.lanes_pos

/-- One key, one lane. -/
theorem KeyedConfig.laneFor_eq (h : cfg.keyOf w = cfg.keyOf w') :
    cfg.laneFor w = cfg.laneFor w' := by
  unfold KeyedConfig.laneFor
  rw [h]

/-! ## The pool -/

variable (W)

/-- An accepted item with its number in the order of acceptance. -/
structure Item where
  seq : ℕ
  work : W

/-- Where a lane's goroutine stands: at its `select`, in `runOne` (called from
the outer loop or from the drain loop), in the drain loop, or returned. -/
inductive LanePc
  | selecting
  | running (item : Item W) (drain : Bool)
  | draining
  | exited

structure Lane where
  ch : List (Item W) := []
  pc : LanePc W := .selecting

/-- A submit between its registration and the end of its `select`. -/
structure SubmitCall where
  caller : ℕ
  work : W
  blocking : Bool

/-- `Process` starts or ends on a lane. -/
inductive Occurrence
  | started (lane : ℕ) (item : Item W)
  | finished (lane : ℕ) (item : Item W)

structure KeyedPool where
  stopped : Bool := false
  inFlight : List (SubmitCall W) := []
  drainClosed : Bool := false
  stopDone : Bool := false
  lane : ℕ → Lane W := fun _ => {}
  accepted : List (Item W) := []
  history : List (Occurrence W) := []

/-- The steps of callers, coordinator and lanes. -/
inductive PoolEvent
  /-- `Submit` or `SubmitBlocking` takes the lock. -/
  | submit (caller : ℕ) (work : W) (blocking : Bool)
  /-- Its `select` sends. -/
  | send (caller : ℕ)
  /-- `Submit` finds its lane full. -/
  | full (caller : ℕ)
  /-- `SubmitBlocking` sees its context cancelled, -/
  | cancelled (caller : ℕ)
  /-- or the drain. -/
  | drained (caller : ℕ)
  | stop
  /-- The coordinator closes `drainCh`, -/
  | closeDrain
  /-- and `stopDone`. -/
  | closeDone
  /-- A lane receives an item, -/
  | start (lane : ℕ)
  /-- `Process` returns or its panic is recovered, -/
  | finish (lane : ℕ)
  /-- the lane's `select` takes the drain, -/
  | drain (lane : ℕ)
  /-- its drain loop finds the channel empty. -/
  | exit (lane : ℕ)

variable {W}

namespace Lane

/-- The item in `Process`. -/
def inProcess (l : Lane W) : List (Item W) :=
  match l.pc with
  | .running item _ => [item]
  | _ => []

def isExited (l : Lane W) : Bool :=
  match l.pc with
  | .exited => true
  | _ => false

/-- The goroutine has left its outer loop. -/
def sawDrain (l : Lane W) : Bool :=
  match l.pc with
  | .running _ drain => drain
  | .draining | .exited => true
  | .selecting => false

def receive (l : Lane W) : Option (Item W × Lane W) :=
  match l.pc, l.ch with
  | .selecting, item :: rest => some (item, ⟨rest, .running item false⟩)
  | .draining, item :: rest => some (item, ⟨rest, .running item true⟩)
  | _, _ => none

/-- The lane after `runOne`. -/
def complete (l : Lane W) : Option (Item W × Lane W) :=
  match l.pc with
  | .running item drain => some (item, { l with pc := if drain then .draining else .selecting })
  | _ => none

end Lane

namespace KeyedPool

def call (s : KeyedPool W) (caller : ℕ) : Option (SubmitCall W) :=
  s.inFlight.find? fun c => c.caller = caller

/-- `submitWG.Done`. -/
def done (s : KeyedPool W) (caller : ℕ) : List (SubmitCall W) :=
  s.inFlight.filter fun c => c.caller ≠ caller

def setLane (s : KeyedPool W) (i : ℕ) (l : Lane W) : KeyedPool W :=
  { s with lane := update s.lane i l }

/-- The send of a call: the item is accepted. -/
def accept (s : KeyedPool W) (c : SubmitCall W) : KeyedPool W :=
  let item : Item W := ⟨s.accepted.length, c.work⟩
  let l := s.lane (cfg.laneFor c.work)
  { s.setLane (cfg.laneFor c.work) { l with ch := l.ch ++ [item] } with
    inFlight := s.done c.caller
    accepted := s.accepted ++ [item] }

/-- One step; `none` where it is not enabled. -/
def step (s : KeyedPool W) : PoolEvent W → Option (KeyedPool W)
  | .submit caller work blocking =>
    if s.stopped then some s
    else if (s.call caller).isSome then none
    else some { s with inFlight := s.inFlight ++ [⟨caller, work, blocking⟩] }
  | .send caller => do
    let c ← s.call caller
    if (s.lane (cfg.laneFor c.work)).ch.length < cfg.queueDepth then some (s.accept cfg c) else none
  | .full caller => do
    let c ← s.call caller
    if c.blocking = false ∧ cfg.queueDepth ≤ (s.lane (cfg.laneFor c.work)).ch.length then
      some { s with inFlight := s.done caller }
    else none
  | .cancelled caller => do
    let c ← s.call caller
    if c.blocking then some { s with inFlight := s.done caller } else none
  | .drained caller => do
    let c ← s.call caller
    if c.blocking ∧ s.drainClosed then some { s with inFlight := s.done caller } else none
  | .stop => some { s with stopped := true }
  | .closeDrain =>
    if s.stopped ∧ s.inFlight.isEmpty ∧ s.drainClosed = false then some { s with drainClosed := true }
    else none
  | .closeDone =>
    if s.drainClosed ∧ (List.range cfg.lanes).all (fun i => (s.lane i).isExited) then
      some { s with stopDone := true }
    else none
  | .start i =>
    if i < cfg.lanes then
      (s.lane i).receive.map fun p =>
        { s.setLane i p.2 with history := s.history ++ [.started i p.1] }
    else none
  | .finish i =>
    if i < cfg.lanes then
      (s.lane i).complete.map fun p =>
        { s.setLane i p.2 with history := s.history ++ [.finished i p.1] }
    else none
  | .drain i =>
    match (s.lane i).pc with
    | .selecting =>
      if i < cfg.lanes ∧ s.drainClosed then some (s.setLane i { s.lane i with pc := .draining })
      else none
    | _ => none
  | .exit i =>
    match (s.lane i).pc, (s.lane i).ch with
    | .draining, [] => if i < cfg.lanes then some (s.setLane i ⟨[], .exited⟩) else none
    | _, _ => none

/-- **What a step can do.** -/
inductive Moves (s : KeyedPool W) : KeyedPool W → Prop
  | calls {inFlight : List (SubmitCall W)}
    (h : ∀ c ∈ inFlight, c ∈ s.inFlight ∨ s.stopped = false) :
    Moves s { s with inFlight := inFlight }
  | accepted {c : SubmitCall W} (h : c ∈ s.inFlight) : Moves s (s.accept cfg c)
  | stop : Moves s { s with stopped := true }
  | closeDrain (hstopped : s.stopped = true) (hempty : s.inFlight = []) :
    Moves s { s with drainClosed := true }
  | closeDone (hdrain : s.drainClosed = true) (hexited : ∀ i < cfg.lanes, (s.lane i).isExited = true) :
    Moves s { s with stopDone := true }
  | start {i : ℕ} {item : Item W} {l : Lane W} (hi : i < cfg.lanes)
    (h : (s.lane i).receive = some (item, l)) :
    Moves s { s.setLane i l with history := s.history ++ [.started i item] }
  | finish {i : ℕ} {item : Item W} {l : Lane W} (hi : i < cfg.lanes)
    (h : (s.lane i).complete = some (item, l)) :
    Moves s { s.setLane i l with history := s.history ++ [.finished i item] }
  | drain {i : ℕ} (hpc : (s.lane i).pc = .selecting) (hdrain : s.drainClosed = true) :
    Moves s (s.setLane i { s.lane i with pc := .draining })
  | exit {i : ℕ} (hpc : (s.lane i).pc = .draining) (hch : (s.lane i).ch = []) :
    Moves s (s.setLane i ⟨[], .exited⟩)

variable {cfg} {s s' : KeyedPool W} {e : PoolEvent W}

theorem mem_of_call (h : s.call caller = some c) : c ∈ s.inFlight :=
  mem_of_find?_eq_some h

theorem moves_done (s : KeyedPool W) (caller : ℕ) : Moves cfg s { s with inFlight := s.done caller } :=
  .calls fun _ hc => .inl (mem_of_mem_filter hc)

theorem moves_of_step (h : s.step cfg e = some s') : Moves cfg s s' := by
  cases e with (simp only [step] at h; try (split at h; on_goal 2 => contradiction))
  | submit caller work blocking =>
    split at h
    · cases h
      exact .calls fun _ hc => .inl hc
    · rename_i hstopped
      split at h <;> cases h
      exact .calls fun _ _ => .inr (Bool.eq_false_iff.2 hstopped)
  | send caller =>
    obtain ⟨c, hc, h⟩ := bind_eq_some_iff.1 h
    split at h <;> cases h
    exact .accepted (mem_of_call hc)
  | full caller | cancelled caller | drained caller =>
    obtain ⟨c, hc, h⟩ := bind_eq_some_iff.1 h
    split at h <;> cases h
    exact moves_done s caller
  | stop =>
    cases h
    exact .stop
  | closeDrain =>
    rename_i hguard
    cases h
    exact .closeDrain hguard.1 (List.isEmpty_iff.1 hguard.2.1)
  | closeDone =>
    rename_i hguard
    cases h
    refine .closeDone hguard.1 fun i hi => ?_
    exact List.all_eq_true.1 hguard.2 i (mem_range.2 hi)
  | start i =>
    rename_i hi
    obtain ⟨⟨item, l⟩, hreceive, rfl⟩ := map_eq_some_iff.1 h
    exact .start hi hreceive
  | finish i =>
    rename_i hi
    obtain ⟨⟨item, l⟩, hcomplete, rfl⟩ := map_eq_some_iff.1 h
    exact .finish hi hcomplete
  | drain i =>
    rename_i hpc
    split at h
    · rename_i hguard
      cases h
      exact .drain hpc hguard.2
    · cases h
  | exit i =>
    rename_i hpc hch
    split at h <;> cases h
    exact .exit hpc hch

end KeyedPool

/-! ## The histories -/

/-- The items `Process` was called with on a lane, in order. -/
def startedOn (history : List (Occurrence W)) (i : ℕ) : List (Item W) :=
  history.filterMap fun
    | .started lane item => if lane = i then some item else none
    | .finished _ _ => none

/-- The items `Process` is done with on a lane, in order. -/
def finishedOn (history : List (Occurrence W)) (i : ℕ) : List (Item W) :=
  history.filterMap fun
    | .started _ _ => none
    | .finished lane item => if lane = i then some item else none

/-- The items accepted for a lane, in order. -/
def KeyedPool.acceptedOn (s : KeyedPool W) (i : ℕ) : List (Item W) :=
  s.accepted.filter fun item => cfg.laneFor item.work = i

section Histories

variable {history : List (Occurrence W)} {i j : ℕ} {item : Item W}

theorem startedOn_append :
    startedOn (history ++ history') i = startedOn history i ++ startedOn history' i :=
  filterMap_append

theorem finishedOn_append :
    finishedOn (history ++ history') i = finishedOn history i ++ finishedOn history' i :=
  filterMap_append

@[simp] theorem startedOn_started :
    startedOn [.started j item] i = if j = i then [item] else [] := by
  unfold startedOn
  split <;> simp [*]

@[simp] theorem startedOn_finished : startedOn [.finished j item] i = [] := rfl

@[simp] theorem finishedOn_finished :
    finishedOn [.finished j item] i = if j = i then [item] else [] := by
  unfold finishedOn
  split <;> simp [*]

@[simp] theorem finishedOn_started : finishedOn [.started j item] i = [] := rfl

theorem mem_finishedOn : item ∈ finishedOn history i ↔ .finished i item ∈ history := by
  unfold finishedOn
  rw [mem_filterMap]
  constructor
  · rintro ⟨o, ho, hitem⟩
    cases o with
    | started lane item' => cases hitem
    | finished lane item' =>
      obtain ⟨rfl, ⟨⟩⟩ := ite_none_right_eq_some.1 hitem
      exact ho
  · intro h
    exact ⟨_, h, if_pos rfl⟩

end Histories

/-! ## The invariant -/

/-- One lane's books: what was started is done or in `Process`, and what was
started and what waits in the channel is, in this order, what was accepted. -/
structure LaneOk (s : KeyedPool W) (i : ℕ) : Prop where
  started : startedOn s.history i = finishedOn s.history i ++ (s.lane i).inProcess
  accepted : startedOn s.history i ++ (s.lane i).ch = s.acceptedOn cfg i
  drain : (s.lane i).sawDrain = true → s.drainClosed = true
  exited : (s.lane i).isExited = true → (s.lane i).ch = []

structure PoolInv (s : KeyedPool W) : Prop where
  lanes : ∀ i, LaneOk cfg s i
  /-- Nothing starts on a lane before everything started there is done. -/
  serial : ∀ pre i item post, s.history = pre ++ .started i item :: post →
    startedOn pre i = finishedOn pre i
  numbered : s.accepted.map Item.seq = List.range s.accepted.length
  closed : s.drainClosed = true → s.stopped = true ∧ s.inFlight = []
  complete : s.stopDone = true → ∀ i < cfg.lanes, (s.lane i).isExited = true

section Invariant

variable {cfg} {s s' : KeyedPool W} {i : ℕ} {item : Item W} {l : Lane W}

theorem poolInv_init : PoolInv cfg ({} : KeyedPool W) := by
  refine ⟨fun i => ⟨rfl, rfl, nofun, nofun⟩, fun pre i item post h => ?_, rfl, nofun, nofun⟩
  exact absurd h.symm (by simp)

@[simp] theorem setLane_lane_self : (s.setLane i l).lane i = l := update_self ..

@[simp] theorem setLane_history : (s.setLane i l).history = s.history := rfl

@[simp] theorem setLane_accepted : (s.setLane i l).accepted = s.accepted := rfl

theorem setLane_lane_of_ne (h : j ≠ i) : (s.setLane i l).lane j = s.lane j :=
  update_of_ne h ..

/-- The lanes have returned, also after one of them was set. -/
theorem exited_setLane (h : ∀ j < cfg.lanes, (s.lane j).isExited)
    (hl : (s.lane i).isExited → l.isExited) :
    ∀ j < cfg.lanes, ((s.setLane i l).lane j).isExited := by
  intro j hj
  by_cases hji : j = i
  · subst hji
    rw [setLane_lane_self]
    exact hl (h j hj)
  · rw [setLane_lane_of_ne hji]
    exact h j hj

/-- The books of a lane that a step does not touch. -/
theorem LaneOk.frame (h : LaneOk cfg s i) (hlane : s'.lane i = s.lane i)
    (hstarted : startedOn s'.history i = startedOn s.history i)
    (hfinished : finishedOn s'.history i = finishedOn s.history i)
    (haccepted : s'.acceptedOn cfg i = s.acceptedOn cfg i)
    (hdrain : s.drainClosed → s'.drainClosed) : LaneOk cfg s' i where
  started := by rw [hstarted, hfinished, hlane]; exact h.started
  accepted := by rw [hstarted, hlane, haccepted]; exact h.accepted
  drain hsaw := hdrain (h.drain (hlane ▸ hsaw))
  exited hex := by rw [hlane] at hex ⊢; exact h.exited hex

theorem receive_eq (h : (s.lane i).receive = some (item, l)) :
    (s.lane i).inProcess = [] ∧ (s.lane i).ch = item :: l.ch ∧ l.inProcess = [item] ∧
      l.sawDrain = (s.lane i).sawDrain ∧ (s.lane i).isExited = false ∧ l.isExited = false := by
  unfold Lane.receive at h
  split at h
  iterate 2
    · rename_i hpc hch
      cases h
      simp [Lane.inProcess, Lane.sawDrain, Lane.isExited, hpc, hch]
  · cases h

theorem complete_eq (h : (s.lane i).complete = some (item, l)) :
    (s.lane i).inProcess = [item] ∧ l.ch = (s.lane i).ch ∧ l.inProcess = [] ∧
      l.sawDrain = (s.lane i).sawDrain ∧ (s.lane i).isExited = false ∧ l.isExited = false := by
  unfold Lane.complete at h
  split at h
  · rename_i drain hpc
    cases h
    cases drain <;> simp [Lane.inProcess, Lane.sawDrain, Lane.isExited, hpc]
  · cases h

theorem serial_append {history : List (Occurrence W)} {o : Occurrence W}
    (h : ∀ pre i item post, history = pre ++ .started i item :: post →
      startedOn pre i = finishedOn pre i)
    (ho : ∀ i item, o = .started i item → startedOn history i = finishedOn history i) :
    ∀ pre i item post, history ++ [o] = pre ++ .started i item :: post →
      startedOn pre i = finishedOn pre i := by
  intro pre i item post heq
  rcases eq_nil_or_concat post with rfl | ⟨post, _, rfl⟩
  · obtain ⟨rfl, hlast⟩ := append_inj' heq rfl
    exact ho i item (singleton_inj.1 hlast)
  · rw [concat_eq_append, ← cons_append, ← append_assoc] at heq
    obtain ⟨hinit, -⟩ := append_inj' heq rfl
    exact h pre i item post hinit

theorem acceptedOn_append {c : SubmitCall W} : (s.accept cfg c).acceptedOn cfg i =
      s.acceptedOn cfg i ++ if cfg.laneFor c.work = i then [⟨s.accepted.length, c.work⟩] else [] := by
  unfold KeyedPool.acceptedOn KeyedPool.accept
  split <;> simp [*]

theorem PoolInv.lane_step (hs : PoolInv cfg s) {history : List (Occurrence W)}
    (hat : LaneOk cfg { s.setLane i l with history := history } i)
    (hothers : ∀ j, j ≠ i → startedOn history j = startedOn s.history j ∧
      finishedOn history j = finishedOn s.history j)
    (hserial : ∀ pre i item post, history = pre ++ .started i item :: post →
      startedOn pre i = finishedOn pre i)
    (hexited : (s.lane i).isExited → l.isExited) :
    PoolInv cfg { s.setLane i l with history := history } := by
  refine ⟨fun j => ?_, hserial, hs.numbered, hs.closed,
    fun hdone => exited_setLane (hs.complete hdone) hexited⟩
  by_cases hj : j = i
  · exact hj ▸ hat
  · obtain ⟨hstarted, hfinished⟩ := hothers j hj
    exact (hs.lanes j).frame (setLane_lane_of_ne hj) hstarted hfinished rfl id

theorem PoolInv.moves (hs : PoolInv cfg s) (h : KeyedPool.Moves cfg s s') : PoolInv cfg s' := by
  cases h with
  | calls hcalls =>
    refine { hs with lanes := fun i => { hs.lanes i with }, closed := fun hdrain => ?_ }
    obtain ⟨hstopped, hempty⟩ := hs.closed hdrain
    refine ⟨hstopped, eq_nil_iff_forall_not_mem.2 fun c hc => ?_⟩
    rcases hcalls c hc with hold | hnot
    · rw [hempty] at hold
      exact absurd hold not_mem_nil
    · rw [hstopped] at hnot
      exact nomatch hnot
  | accepted hc =>
    rename_i c
    have hopen : ¬ s.drainClosed = true := by
      intro hdrain
      rw [(hs.closed hdrain).2] at hc
      exact not_mem_nil hc
    refine ⟨fun i => ?_, hs.serial, ?_, fun hdrain => absurd hdrain hopen, fun hdone => ?_⟩
    · have hlane := hs.lanes i
      by_cases hi : cfg.laneFor c.work = i
      · subst hi
        have hsame : ((s.accept cfg c).lane (cfg.laneFor c.work)) =
            { s.lane (cfg.laneFor c.work) with
              ch := (s.lane (cfg.laneFor c.work)).ch ++ [⟨s.accepted.length, c.work⟩] } :=
          update_self ..
        refine ⟨?_, ?_, ?_, ?_⟩
        · rw [hsame]
          exact hlane.started
        · rw [hsame, acceptedOn_append, if_pos rfl, ← append_assoc]
          exact congrArg (· ++ _) hlane.accepted
        · rw [hsame]
          exact hlane.drain
        · -- a lane that returned saw the drain, and no call is registered then
          intro hexited
          have hsaw : (s.lane (cfg.laneFor c.work)).sawDrain := by
            unfold Lane.isExited at hexited
            unfold Lane.sawDrain
            split at hexited <;> simp_all
          exact absurd (hlane.drain hsaw) hopen
      · refine hlane.frame (update_of_ne (Ne.symm hi) ..) rfl rfl ?_ id
        rw [acceptedOn_append, if_neg hi, append_nil]
    · show (s.accepted ++ [_]).map Item.seq = List.range (s.accepted ++ [_]).length
      rw [map_append, hs.numbered, length_append, length_singleton, range_succ]
      rfl
    · exact exited_setLane (hs.complete hdone) id
  | stop =>
    exact { hs with
      lanes := fun i => { hs.lanes i with }
      closed := fun hdrain => ⟨rfl, (hs.closed hdrain).2⟩ }
  | closeDrain hstopped hempty =>
    exact { hs with
      lanes := fun i => { hs.lanes i with drain := fun _ => rfl }
      closed := fun _ => ⟨hstopped, hempty⟩ }
  | closeDone hdrain hexited =>
    exact ⟨fun i => { hs.lanes i with }, hs.serial, hs.numbered, hs.closed, fun _ => hexited⟩
  | start hi hreceive =>
    rename_i i item l
    obtain ⟨hidle, hch, hprocess, hsaw, hnot, hnot'⟩ := receive_eq hreceive
    have hlane := hs.lanes i
    have hserial : startedOn s.history i = finishedOn s.history i := by
      rw [hlane.started, hidle, append_nil]
    refine hs.lane_step ⟨?_, ?_, ?_, ?_⟩ (fun j hj => ?_) ?_ (by rw [hnot]; exact nofun)
    · simp [startedOn_append, finishedOn_append, hserial, hprocess]
    · have hacc := hlane.accepted
      rw [hch] at hacc
      simpa [startedOn_append, KeyedPool.acceptedOn] using hacc
    · simp only [setLane_lane_self, hsaw]
      exact hlane.drain
    · simp [hnot']
    · simp [startedOn_append, finishedOn_append, Ne.symm hj]
    · refine serial_append hs.serial ?_
      rintro _ _ heq
      cases heq
      exact hserial
  | finish hi hcomplete =>
    rename_i i item l
    obtain ⟨hprocess, hch, hidle, hsaw, hnot, hnot'⟩ := complete_eq hcomplete
    have hlane := hs.lanes i
    have hstarted := hlane.started
    rw [hprocess] at hstarted
    refine hs.lane_step ⟨?_, ?_, ?_, ?_⟩ (fun j hj => ?_) (serial_append hs.serial nofun)
      (by rw [hnot]; exact nofun)
    · simp [startedOn_append, finishedOn_append, hstarted, hidle]
    · simpa [startedOn_append, hch, KeyedPool.acceptedOn] using hlane.accepted
    · simp only [setLane_lane_self, hsaw]
      exact hlane.drain
    · simp [hnot']
    · simp [startedOn_append, finishedOn_append, Ne.symm hj]
  | drain hpc hdrain =>
    rename_i i
    have hlane := hs.lanes i
    refine hs.lane_step ⟨?_, ?_, fun _ => hdrain, ?_⟩ (fun _ _ => ⟨rfl, rfl⟩) hs.serial
      (by simp [Lane.isExited, hpc])
    · simpa [Lane.inProcess, hpc] using hlane.started
    · simpa [KeyedPool.acceptedOn] using hlane.accepted
    · simp [Lane.isExited]
  | exit hpc hch =>
    rename_i i
    have hlane := hs.lanes i
    have hacc := hlane.accepted
    rw [hch] at hacc
    refine hs.lane_step ⟨?_, ?_, fun _ => hlane.drain (by simp [Lane.sawDrain, hpc]), by simp⟩
      (fun _ _ => ⟨rfl, rfl⟩) hs.serial fun _ => rfl
    · simpa [Lane.inProcess, hpc] using hlane.started
    · simpa [KeyedPool.acceptedOn] using hacc

theorem PoolInv.of_run (hs : PoolInv cfg s)
    (h : run (KeyedPool.step cfg) s es = some s') : PoolInv cfg s' :=
  run_invariant (fun _ _ _ hs hstep => hs.moves (KeyedPool.moves_of_step hstep)) hs h

end Invariant

/-! ## Order and conservation -/

/-- Every accepted item is done on its lane. -/
def KeyedPool.Processed (s : KeyedPool W) : Prop :=
  ∀ item ∈ s.accepted, item ∈ finishedOn s.history (cfg.laneFor item.work)

/-- A step that only processes. -/
def PoolEvent.isLaneStep : PoolEvent W → Bool
  | .start _ | .finish _ => true
  | _ => false

variable {cfg} {s s' : KeyedPool W} {i : ℕ} {item : Item W} {es : List (PoolEvent W)}

theorem PoolInv.pairwise (hs : PoolInv cfg s) : s.accepted.Pairwise fun x y => x.seq < y.seq := by
  have hmap : (s.accepted.map Item.seq).Pairwise (· < ·) := by
    rw [hs.numbered]
    exact pairwise_lt_range
  exact pairwise_map.1 hmap

/-- What starts on a lane was accepted for it, and starts once. -/
theorem PoolInv.started_once (hs : PoolInv cfg s) (i : ℕ) :
    ((startedOn s.history i).map Item.seq).Nodup ∧
      ∀ item ∈ startedOn s.history i, item ∈ s.accepted ∧ cfg.laneFor item.work = i := by
  have hsub : (startedOn s.history i).Sublist (s.acceptedOn cfg i) := by
    rw [← (hs.lanes i).accepted]
    exact sublist_append_left _ _
  constructor
  · have hnodup : (s.accepted.map Item.seq).Nodup := by
      rw [hs.numbered]
      exact nodup_range
    exact hnodup.sublist ((hsub.trans filter_sublist).map Item.seq)
  · intro item hitem
    obtain ⟨hacc, hlane⟩ := mem_filter.1 (hsub.subset hitem)
    exact ⟨hacc, of_decide_eq_true hlane⟩

/-- **Same key, same order, no overlap.** Before an item starts, every item with
its key that was accepted earlier is done. -/
theorem PoolInv.finished_before_started (hs : PoolInv cfg s) (ha : a ∈ s.accepted)
    (hkey : cfg.keyOf a.work = cfg.keyOf b.work) (hlt : a.seq < b.seq)
    (hsplit : s.history = pre ++ .started i b :: post) :
    .finished i a ∈ pre := by
  have hstarted : startedOn s.history i = startedOn pre i ++ b :: startedOn post i := by
    rw [hsplit, startedOn_append, ← singleton_append, startedOn_append, startedOn_started,
      if_pos rfl, singleton_append]
  have hb : cfg.laneFor b.work = i :=
    ((hs.started_once i).2 b (by rw [hstarted]; simp)).2
  have hmem : a ∈ s.acceptedOn cfg i :=
    mem_filter.2 ⟨ha, decide_eq_true ((cfg.laneFor_eq hkey).trans hb)⟩
  -- the lane's accepted items in their order, split where `b` starts
  have haccepted : s.acceptedOn cfg i =
      startedOn pre i ++ b :: (startedOn post i ++ (s.lane i).ch) := by
    rw [← (hs.lanes i).accepted, hstarted, append_assoc, cons_append]
  have hpair : (s.acceptedOn cfg i).Pairwise fun x y => x.seq < y.seq :=
    hs.pairwise.sublist filter_sublist
  rw [haccepted] at hmem hpair
  rw [← mem_finishedOn, ← hs.serial pre i b post hsplit]
  rcases mem_append.1 hmem with hpre | hrest
  · exact hpre
  rcases mem_cons.1 hrest with rfl | hlater
  · exact absurd hlt (Nat.lt_irrefl _)
  · have hgt := (pairwise_cons.1 (pairwise_append.1 hpair).2.1).1 a hlater
    exact absurd hlt (Nat.lt_asymm hgt)

/-- A lane with nothing waiting and nothing in `Process` is done. -/
theorem PoolInv.processed_of_idle (hs : PoolInv cfg s)
    (hidle : ∀ i < cfg.lanes, (s.lane i).ch = [] ∧ (s.lane i).inProcess = []) : s.Processed cfg := by
  intro item hitem
  obtain ⟨hch, hprocess⟩ := hidle _ (cfg.laneFor_lt item.work)
  have hlane := hs.lanes (cfg.laneFor item.work)
  have hstarted := hlane.started
  have haccepted := hlane.accepted
  rw [hprocess, append_nil] at hstarted
  rw [hch, append_nil, hstarted] at haccepted
  rw [haccepted]
  exact mem_filter.2 ⟨hitem, decide_eq_true rfl⟩

theorem PoolInv.processed_of_stopDone (hs : PoolInv cfg s) (h : s.stopDone) :
    s.Processed cfg := by
  refine hs.processed_of_idle fun i hi => ?_
  have hexited := hs.complete h i hi
  refine ⟨(hs.lanes i).exited hexited, ?_⟩
  unfold Lane.isExited at hexited
  unfold Lane.inProcess
  split at hexited <;> simp_all

/-- What is left to do on a lane. -/
def Lane.load (l : Lane W) : ℕ := 2 * l.ch.length + l.inProcess.length

/-- **A lane with work has a step**, which lowers what is left. -/
theorem PoolInv.exists_laneStep (hs : PoolInv cfg s) (hi : i < cfg.lanes)
    (hbusy : ¬ ((s.lane i).ch = [] ∧ (s.lane i).inProcess = [])) :
    ∃ e t, PoolEvent.isLaneStep e ∧ s.step cfg e = some t ∧ t.accepted = s.accepted ∧
      (t.lane i).load < (s.lane i).load ∧ ∀ j, j ≠ i → t.lane j = s.lane j := by
  cases hcomplete : (s.lane i).complete with
  | some p =>
    obtain ⟨item, l⟩ := p
    obtain ⟨hprocess, hch, hidle, -⟩ := complete_eq hcomplete
    refine ⟨.finish i, { s.setLane i l with history := s.history ++ [.finished i item] }, rfl,
      by simp [KeyedPool.step, hi, hcomplete], rfl, ?_, fun j hj => setLane_lane_of_ne hj⟩
    simp [Lane.load, hprocess, hch, hidle]
  | none =>
    cases hreceive : (s.lane i).receive with
    | some p =>
      obtain ⟨item, l⟩ := p
      obtain ⟨hidle, hch, hprocess, -⟩ := receive_eq hreceive
      refine ⟨.start i, { s.setLane i l with history := s.history ++ [.started i item] }, rfl,
        by simp [KeyedPool.step, hi, hreceive], rfl, ?_, fun j hj => setLane_lane_of_ne hj⟩
      simp only [Lane.load, setLane_lane_self, hprocess, hch, hidle, length_cons, length_nil]
      omega
    | none =>
      -- neither end nor receive: the lane is idle, or it returned and its channel is empty
      refine absurd ?_ hbusy
      have hexited := (hs.lanes i).exited
      unfold Lane.complete at hcomplete
      unfold Lane.receive at hreceive
      unfold Lane.isExited at hexited
      unfold Lane.inProcess
      cases hpc : (s.lane i).pc <;> cases hch : (s.lane i).ch <;> simp_all

/-- **Every accepted item can be processed**, by steps of the lanes alone. -/
theorem PoolInv.exists_run_processed (hs : PoolInv cfg s) :
    ∃ es s', (∀ e ∈ es, PoolEvent.isLaneStep e) ∧ run (KeyedPool.step cfg) s es = some s' ∧
      s'.accepted = s.accepted ∧ s'.Processed cfg := by
  have hprogress : ∀ t, PoolInv cfg t ∧ t.accepted = s.accepted → t.Processed cfg ∨
      ∃ e t', PoolEvent.isLaneStep e ∧ t.step cfg e = some t' ∧
        (PoolInv cfg t' ∧ t'.accepted = s.accepted) ∧
        ∑ i ∈ Finset.range cfg.lanes, (t'.lane i).load <
          ∑ i ∈ Finset.range cfg.lanes, (t.lane i).load := by
    rintro t ⟨ht, hsame⟩
    by_cases hidle : ∀ i < cfg.lanes, (t.lane i).ch = [] ∧ (t.lane i).inProcess = []
    · exact .inl (ht.processed_of_idle hidle)
    push Not at hidle
    obtain ⟨i, hi, hbusy⟩ := hidle
    obtain ⟨e, t', he, hstep, hacc, hlt, hother⟩ := ht.exists_laneStep hi fun h => hbusy h.1 h.2
    refine .inr ⟨e, t', he, hstep, ⟨ht.moves (KeyedPool.moves_of_step hstep), hacc.trans hsame⟩, ?_⟩
    refine Finset.sum_lt_sum (fun j _ => ?_) ⟨i, Finset.mem_range.2 hi, hlt⟩
    by_cases hj : j = i
    · exact hj ▸ hlt.le
    · rw [hother j hj]
  obtain ⟨es, s', hes, hrun, hacc, hdone⟩ := exists_run_of_measure _ hprogress ⟨hs, rfl⟩
  exact ⟨es, s', hes, hrun, hacc.2, hdone⟩

/-- Once the drain has begun nothing is accepted. -/
theorem PoolInv.accepted_of_drainClosed (hs : PoolInv cfg s) (hdrain : s.drainClosed)
    (h : run (KeyedPool.step cfg) s es = some s') : s'.accepted = s.accepted := by
  refine (run_invariant (I := fun t => PoolInv cfg t ∧ t.drainClosed ∧ t.accepted = s.accepted)
    (fun t e t' ht hstep => ⟨ht.1.moves (KeyedPool.moves_of_step hstep), ?_⟩)
    ⟨hs, hdrain, rfl⟩ h).2.2
  obtain ⟨hinv, hclosed, hacc⟩ := ht
  cases KeyedPool.moves_of_step hstep with
  | accepted hc =>
    rw [(hinv.closed hclosed).2] at hc
    exact absurd hc not_mem_nil
  | closeDrain => exact ⟨rfl, hacc⟩
  | _ => exact ⟨hclosed, hacc⟩

/-- Once `Stop` has set `stopped`, only submits registered before are accepted. -/
theorem accepted_of_stopped (hstopped : s.stopped)
    (h : run (KeyedPool.step cfg) s es = some s') :
    ∀ item ∈ s'.accepted, item ∈ s.accepted ∨ ∃ c ∈ s.inFlight, c.work = item.work := by
  refine (run_invariant (I := fun t => t.stopped ∧ (∀ c ∈ t.inFlight, c ∈ s.inFlight) ∧
      ∀ item ∈ t.accepted, item ∈ s.accepted ∨ ∃ c ∈ s.inFlight, c.work = item.work)
    (fun t e t' ht hstep => ?_) ⟨hstopped, fun _ => id, fun _ => .inl⟩ h).2.2
  obtain ⟨hst, hcalls, hacc⟩ := ht
  cases KeyedPool.moves_of_step hstep with
  | calls hnew =>
    refine ⟨hst, fun c hc => ?_, hacc⟩
    rcases hnew c hc with hold | hnot
    · exact hcalls c hold
    · rw [hst] at hnot
      exact nomatch hnot
  | accepted hc =>
    rename_i c
    refine ⟨hst, fun d hd => hcalls d (mem_of_mem_filter hd), fun item hitem => ?_⟩
    rcases mem_append.1 hitem with hold | hnew
    · exact hacc item hold
    · rw [mem_singleton.1 hnew]
      exact .inr ⟨c, hcalls c hc, rfl⟩
  | stop => exact ⟨rfl, hcalls, hacc⟩
  | _ => exact ⟨hst, hcalls, hacc⟩

/-- **The keyed pool keeps order and loses nothing.** In every state of every
run:

* what a lane started was accepted for it and starts once, and the lanes' own
  steps can always finish everything accepted, which they have when none of them
  has a step left;
* before an item starts, every item with its key accepted earlier has ended;
* after `Stop` only submits registered before it are accepted, and after the
  drain began none is;
* when `Stop` completes, every accepted item is done. -/
theorem keyedPool_ordered_and_conserving (h : run (KeyedPool.step cfg) {} es = some s) :
    ((∀ i, ((startedOn s.history i).map Item.seq).Nodup ∧
        ∀ item ∈ startedOn s.history i, item ∈ s.accepted ∧ cfg.laneFor item.work = i) ∧
      (∃ es' s', (∀ e ∈ es', PoolEvent.isLaneStep e = true) ∧
        run (KeyedPool.step cfg) s es' = some s' ∧ s'.accepted = s.accepted ∧ s'.Processed cfg) ∧
      ((∀ e, PoolEvent.isLaneStep e = true → s.step cfg e = none) → s.Processed cfg)) ∧
    (∀ a ∈ s.accepted, ∀ b ∈ s.accepted, cfg.keyOf a.work = cfg.keyOf b.work → a.seq < b.seq →
      ∀ pre i post, s.history = pre ++ .started i b :: post → .finished i a ∈ pre) ∧
    (∀ es' s', run (KeyedPool.step cfg) s es' = some s' → (s.stopped = true →
        ∀ item ∈ s'.accepted, item ∈ s.accepted ∨ ∃ c ∈ s.inFlight, c.work = item.work) ∧
      (s.drainClosed = true → s'.accepted = s.accepted)) ∧
    (s.stopDone = true → s.Processed cfg) := by
  have hs : PoolInv cfg s := poolInv_init.of_run h
  refine ⟨⟨hs.started_once, hs.exists_run_processed, fun hquiet => ?_⟩,
    fun a ha b _ hkey hlt pre i post hsplit => hs.finished_before_started ha hkey hlt hsplit,
    fun es' s' hrun => ⟨fun hstopped => accepted_of_stopped hstopped hrun,
      fun hdrain => hs.accepted_of_drainClosed hdrain hrun⟩,
    hs.processed_of_stopDone⟩
  obtain ⟨es', s', hes', hrun, -, hprocessed⟩ := hs.exists_run_processed
  cases es' with
  | nil =>
    rw [run_nil, Option.some.injEq] at hrun
    exact hrun ▸ hprocessed
  | cons e es' =>
    obtain ⟨t, ht, -⟩ := run_cons_eq_some.1 hrun
    rw [hquiet e (hes' e mem_cons_self)] at ht
    exact nomatch ht

/-- Two lanes with room for one item each. -/
def twoLanes : KeyedConfig (String × ℕ) := ⟨2, 1, Prod.fst, by decide, by decide⟩

/-- Two submits with one key around a stop: the second is parked on the full lane
when `Stop` comes, and lands before the drain begins. -/
def stopRace : List (PoolEvent (String × ℕ)) :=
  [.submit 0 ("a", 1) false, .send 0, .submit 1 ("a", 2) true, .stop, .submit 2 ("a", 3) true,
    .start 0, .send 1, .closeDrain, .finish 0, .drain 0, .start 0, .finish 0, .exit 0, .drain 1,
    .exit 1, .closeDone]

set_option maxRecDepth 10000 in
/-- Both items are done when `Stop` completes. -/
theorem keyedPool_stopRace :
    ∃ s, run (KeyedPool.step twoLanes) {} stopRace = some s ∧ s.accepted.length = 2 ∧
      s.Processed twoLanes := by
  refine' ⟨_, ?run, ?_, (keyedPool_ordered_and_conserving ?run).2.2.2 ?_⟩
  all_goals rfl

end SemStreams.Dispatch
