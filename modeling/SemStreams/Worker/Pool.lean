import SemStreams.Lib.Run
import SemStreams.Lib.Slots
import Mathlib.Data.List.Perm.Basic
/-!
# worker — the pool

A fixed number of workers behind one bounded channel. `Submit` checks the pool's flags and sends
under one lock, `SubmitBlocking` checks under the lock and sends after it. `Stop` closes the
channel and waits under the lock for the workers to drain it, but no longer than its timeout.

The flag `stopped` is set only by a `Stop` that saw the workers end. A `Stop` that timed out has
closed the channel and left the flag, so that the next send, and the next `Stop`, panic; and a
`SubmitBlocking` that is past its check when the channel is closed panics too. What is accepted
is processed once and not lost. With metrics the updater is one of those `Stop` waits for, and
it ends with the run context only.

The run context is not cancelled. Submissions are numbered in the order they begin.
-/

namespace SemStreams.Worker

open List

/-- What `NewPool` makes of its arguments. -/
structure Config where
  workers : ℕ
  queueSize : ℕ
  metrics : Bool
  workers_pos : 0 < workers
  queueSize_pos : 0 < queueSize

theorem pos_of_default (hd : 0 < d) (n : ℤ) : 0 < if n ≤ 0 then d else n.toNat := by
  split <;> omega

/-- `NewPool`: counts that are not positive are replaced by defaults. -/
def newPool (workers queueSize : ℤ) (metrics : Bool) : Config where
  workers := if workers ≤ 0 then 10 else workers.toNat
  queueSize := if queueSize ≤ 0 then 1000 else queueSize.toNat
  metrics := metrics
  workers_pos := pos_of_default (by decide) workers
  queueSize_pos := pos_of_default (by decide) queueSize

inductive PoolError where
  | notStarted
  | stopped
  | queueFull
  | context
deriving DecidableEq

/-- A submission: what it submits, of which kind it is, whether a `Stop` had returned when it
began, and whether it is past its check. -/
structure Submission (T : Type*) where
  work : T
  blocking : Bool
  late : Bool
  waiting : Bool

structure Item (T : Type*) where
  id : ℕ
  work : T

/-- The pool. `stopping` says that a `Stop` holds the lock and waits. The last fields are what
became of the submissions; `lost` are those accepted and not processed when a `Stop` returned
without an error, `lateAccepted` those accepted though they began after a `Stop` had returned. -/
structure State (T : Type*) where
  started : Bool
  stopped : Bool
  closed : Bool
  stopping : Bool
  stopReturned : Bool
  panicked : Bool
  queue : List (Item T)
  idle : ℕ
  busy : List (Item T)
  updater : Bool
  calls : AList fun _ : ℕ => Submission T
  next : ℕ
  accepted : List ℕ
  refused : List (ℕ × PoolError)
  processed : List ℕ
  lateAccepted : List ℕ
  lost : List ℕ

def State.initial (T : Type*) : State T where
  started := false
  stopped := false
  closed := false
  stopping := false
  stopReturned := false
  panicked := false
  queue := []
  idle := 0
  busy := []
  updater := false
  calls := ∅
  next := 0
  accepted := []
  refused := []
  processed := []
  lateAccepted := []
  lost := []

inductive Event (T : Type*) where
  | start
  | call (work : T) (blocking : Bool)
  | lock (c : ℕ)
  | send (c : ℕ)
  | cancel (c : ℕ)
  | stop
  | stopDone
  | stopTimeout
  | take
  | finish (i : ℕ)
  | exit

variable {T : Type*} (cfg : Config)

namespace State

variable (s : State T)

def panic : State T := { s with panicked := true }

def refuse (c : ℕ) (error : PoolError) : State T :=
  { s with calls := s.calls.erase c, refused := s.refused ++ [(c, error)] }

def accept (c : ℕ) (call : Submission T) : State T :=
  { s with
    queue := s.queue ++ [⟨c, call.work⟩]
    calls := s.calls.erase c
    accepted := s.accepted ++ [c]
    lateAccepted := if call.late then s.lateAccepted ++ [c] else s.lateAccepted }

/-- `Stop` returns without an error. -/
def returnNil : State T :=
  { s with
    stopReturned := true
    lost := s.lost ++ s.accepted.filter fun c => c ∉ s.processed }

end State

/-- What a submission finds under the lock: `Submit` as a whole, and `SubmitBlocking` up to its
send. -/
def locked (s : State T) (c : ℕ) (call : Submission T) : State T :=
  if !s.started then s.refuse c .notStarted
  else if s.stopped then s.refuse c .stopped
  else if call.blocking then
    { s with calls := s.calls.insert c { call with waiting := true } }
  -- a send to a closed channel panics, also in a select with a default
  else if s.closed then s.panic
  else if s.queue.length < cfg.queueSize then s.accept c call
  else s.refuse c .queueFull

/-- The send of `SubmitBlocking`, where it can proceed. -/
def sent (s : State T) (c : ℕ) (call : Submission T) : Option (State T) :=
  if s.closed then some s.panic
  else if s.queue.length < cfg.queueSize then some (s.accept c call)
  else none

/-- `Stop` up to its wait. -/
def stopCall (s : State T) : State T :=
  if !s.started || s.stopped then s.returnNil
  else if s.closed then s.panic
  else { s with closed := true, stopping := true }

/-- **One step.** A panic ends the program. The lock is held while a `Stop` waits. -/
def step (s : State T) (e : Event T) : Option (State T) :=
  if s.panicked then none
  else
    match e with
    | .start =>
      if s.stopping then none
      else if s.started then some s
      else some { s with started := true, idle := cfg.workers, updater := cfg.metrics }
    | .call work blocking =>
      some { s with
        calls := s.calls.insert s.next ⟨work, blocking, s.stopReturned, false⟩
        next := s.next + 1 }
    | .lock c =>
      match s.calls.lookup c with
      | some call => if s.stopping || call.waiting then none else some (locked cfg s c call)
      | none => none
    | .send c =>
      match s.calls.lookup c with
      | some call => if call.waiting then sent cfg s c call else none
      | none => none
    | .cancel c =>
      match s.calls.lookup c with
      | some call => if call.waiting then some (s.refuse c .context) else none
      | none => none
    | .stop => if s.stopping then none else some (stopCall s)
    | .stopDone =>
      if s.stopping && s.idle = 0 && s.busy.isEmpty && !s.updater then
        some { s with stopped := true, stopping := false }.returnNil
      else none
    | .stopTimeout =>
      if s.stopping then some { s with stopping := false, stopReturned := true } else none
    | .take =>
      match s.queue with
      | item :: queue =>
        if 0 < s.idle then
          some { s with idle := s.idle - 1, busy := s.busy ++ [item], queue := queue }
        else none
      | [] => none
    | .finish i =>
      match s.busy[i]? with
      | some item =>
        some { s with
          busy := s.busy.eraseIdx i
          idle := s.idle + 1
          processed := s.processed ++ [item.id] }
      | none => none
    | .exit =>
      if 0 < s.idle && s.closed && s.queue.isEmpty then some { s with idle := s.idle - 1 } else none

/-- **No call panics, no item is processed twice, nothing that began after a `Stop` had returned
is accepted, and a `Stop` that returned without an error left nothing accepted unprocessed.** -/
structure Safe (s : State T) : Prop where
  calm : s.panicked = false
  once : s.processed.Nodup
  timely : s.lateAccepted = []
  drained : s.lost = []

/-- **The condition on a step.** `Stop` does not follow one that timed out; a submission does not
reach its send after the channel was closed, nor, in a pool stopped before it was started,
after it began late. -/
def orderly (s : State T) : Event T → Bool
  | .lock c =>
    match s.calls.lookup c with
    | some call =>
      !s.started || s.stopped || call.blocking ||
        (!s.closed && (!call.late || decide (cfg.queueSize ≤ s.queue.length)))
    | none => true
  | .send c =>
    match s.calls.lookup c with
    | some call => !s.closed && !call.late
    | none => true
  | .stop => !s.started || s.stopped || !s.closed
  | _ => true

/-! ## What is accepted is in the queue, in work or processed -/

/-- The queue, the work in progress and what was processed are what was accepted. -/
def Accounted (queue busy processed accepted : List ℕ) : Prop :=
  (queue ++ busy ++ processed).Perm accepted

variable {queue busy processed accepted : List ℕ} {c : ℕ}

theorem Accounted.push (h : Accounted queue busy processed accepted) (c : ℕ) :
    Accounted (queue ++ [c]) busy processed (accepted ++ [c]) := by
  unfold Accounted at *
  rw [perm_iff_count] at *
  intro a
  have hcount := h a
  simp only [count_append] at *
  omega

theorem Accounted.take (h : Accounted (c :: queue) busy processed accepted) :
    Accounted queue (busy ++ [c]) processed accepted := by
  unfold Accounted at *
  rw [perm_iff_count] at *
  intro a
  have hcount := h a
  simp only [count_append, count_cons, count_nil] at *
  omega

theorem Accounted.finish (h : Accounted queue busy processed accepted)
    (hbusy : (c :: busy').Perm busy) : Accounted queue busy' (processed ++ [c]) accepted := by
  unfold Accounted at *
  rw [perm_iff_count] at *
  intro a
  have hcount := h a
  have hcount' := hbusy a
  simp only [count_append, count_cons, count_nil] at *
  omega

/-- Submissions are conserved. A worker is gone only where the channel is closed and empty, a
`Stop` has set the flag only where all of them are. -/
structure Conserved {T : Type*} (cfg : Config) (s : State T) : Prop where
  ids : Accounted (s.queue.map Item.id) (s.busy.map Item.id) s.processed s.accepted
  nodup : s.accepted.Nodup
  fresh : ∀ c ∈ s.accepted, c < s.next
  calls : ∀ c call, s.calls.lookup c = some call →
    c < s.next ∧ c ∉ s.accepted ∧ (call.waiting = true → s.started = true)
  unstarted : s.started = false →
    s.idle = 0 ∧ s.busy = [] ∧ s.queue = [] ∧ s.accepted = [] ∧ s.closed = false
  exits : s.started = true → s.idle + s.busy.length < cfg.workers →
    s.closed = true ∧ s.queue = []
  stopped : s.stopped = true → s.closed = true ∧ s.queue = [] ∧ s.busy = []
  stopping : s.stopping = true → s.started = true ∧ s.closed = true
  updater : s.updater = (s.started && cfg.metrics)

variable {cfg} {s s' : State T} {call : Submission T}

theorem Conserved.initial : Conserved cfg (.initial T) where
  ids := .nil
  nodup := nodup_nil
  fresh c h := by cases h
  calls c call h := by
    cases h
  unstarted _ := ⟨rfl, rfl, rfl, rfl, rfl⟩
  exits h := by cases h
  stopped h := by cases h
  stopping h := by cases h
  updater := rfl

/-- Nothing is accepted and unprocessed once nothing is queued or in work. -/
theorem Conserved.filter_eq_nil (hs : Conserved cfg s) (hqueue : s.queue = []) (hbusy : s.busy = []) :
    (s.accepted.filter fun c => c ∉ s.processed) = [] := by
  have hperm : (s.queue.map Item.id ++ s.busy.map Item.id ++ s.processed).Perm s.accepted := hs.ids
  rw [hqueue, hbusy] at hperm
  refine filter_eq_nil_iff.2 fun c hc => ?_
  simpa using hperm.mem_iff.2 hc

theorem Conserved.processed_nodup (hs : Conserved cfg s) : s.processed.Nodup :=
  (nodup_append.1 ((List.Perm.nodup_iff hs.ids).2 hs.nodup)).2.1

theorem Conserved.panic (hs : Conserved cfg s) : Conserved cfg s.panic := { hs with }

theorem Conserved.returnNil (hs : Conserved cfg s) : Conserved cfg s.returnNil := { hs with }

theorem Conserved.refuse (hs : Conserved cfg s) (c : ℕ) (error : PoolError) :
    Conserved cfg (s.refuse c error) :=
  { hs with calls := forall_lookup_erase hs.calls }

theorem Conserved.accept (hs : Conserved cfg s) (hc : s.calls.lookup c = some call)
    (hstarted : s.started) (hopen : s.closed = false) : Conserved cfg (s.accept c call) := by
  obtain ⟨hlt, hnew, -⟩ := hs.calls c call hc
  have hstill : s.closed ≠ true := by simp [hopen]
  exact { hs with
    ids := by
      simpa [State.accept] using hs.ids.push c
    nodup := hs.nodup.append (nodup_singleton c) (by simpa using hnew)
    fresh := by
      intro d hd
      rcases mem_append.1 hd with hd | hd
      · exact hs.fresh d hd
      · rw [mem_singleton.1 hd]
        exact hlt
    calls := by
      intro d other hd
      by_cases hdc : d = c
      · subst hdc
        rw [State.accept, AList.lookup_erase] at hd
        cases hd
      · rw [State.accept, AList.lookup_erase_ne hdc] at hd
        obtain ⟨hdlt, hdnew, hwaiting⟩ := hs.calls d other hd
        refine ⟨hdlt, fun hmem => ?_, hwaiting⟩
        rcases mem_append.1 hmem with hmem | hmem
        · exact hdnew hmem
        · exact hdc (mem_singleton.1 hmem)
    unstarted := fun h => by
      rw [State.accept, hstarted] at h
      cases h
    exits := fun h hgone => absurd (hs.exits h hgone).1 hstill
    stopped := fun h => absurd (hs.stopped h).1 hstill }

theorem Conserved.locked (hs : Conserved cfg s) (hc : s.calls.lookup c = some call) :
    Conserved cfg (locked cfg s c call) := by
  unfold Worker.locked
  split
  · exact hs.refuse c _
  have hstarted : s.started := by simpa using ‹¬ (!s.started) = true›
  split
  · exact hs.refuse c _
  split
  · obtain ⟨hlt, hnew, -⟩ := hs.calls c call hc
    exact { hs with
      calls := forall_lookup_insert ⟨hlt, hnew, fun _ => hstarted⟩ hs.calls }
  · split
    · exact hs.panic
    · split
      · exact hs.accept hc hstarted (by simpa using ‹¬ s.closed = true›)
      · exact hs.refuse c _

theorem Conserved.sent (hs : Conserved cfg s) (hc : s.calls.lookup c = some call)
    (hwaiting : call.waiting) (h : sent cfg s c call = some s') : Conserved cfg s' := by
  unfold Worker.sent at h
  split at h
  · cases h
    exact hs.panic
  · split at h <;> cases h
    exact hs.accept hc ((hs.calls c call hc).2.2 hwaiting) (by simpa using ‹¬ s.closed = true›)

theorem Conserved.stopCall (hs : Conserved cfg s) : Conserved cfg (stopCall s) := by
  unfold Worker.stopCall
  split
  · exact hs.returnNil
  split
  · exact hs.panic
  have hactive : ¬ (!s.started || s.stopped) := ‹_›
  simp only [Bool.or_eq_true, Bool.not_eq_true', not_or, Bool.not_eq_false,
    Bool.not_eq_true] at hactive
  obtain ⟨hstarted, hrunning⟩ := hactive
  exact { hs with
    unstarted := fun h => by
      rw [hstarted] at h
      cases h
    exits := fun h hgone => ⟨rfl, (hs.exits h hgone).2⟩
    stopped := fun h => by
      rw [hrunning] at h
      cases h
    stopping := fun _ => ⟨hstarted, rfl⟩ }

theorem Conserved.step (s : State T) (e : Event T) (s' : State T) (hs : Conserved cfg s)
    (h : step cfg s e = some s') : Conserved cfg s' := by
  obtain ⟨_, h⟩ := Option.ite_none_left_eq_some.1 h
  cases e with (dsimp only at h; (try split at h <;> try contradiction); try cases h)
  | start =>
    split at h <;> cases h
    · exact hs
    have hnew : s.started = false := by simpa using ‹¬ s.started = true›
    obtain ⟨-, hbusy, hqueue, _, hclosed⟩ := hs.unstarted hnew
    exact { hs with
      calls := fun c call hc => ⟨(hs.calls c call hc).1, (hs.calls c call hc).2.1, fun _ => rfl⟩
      unstarted := nofun
      exits := fun _ hgone => absurd hgone (by simp [hbusy])
      stopping := fun h => ⟨rfl, (hs.stopping h).2⟩
      updater := rfl }
  | call work blocking =>
    exact { hs with
      fresh := fun c hc => Nat.lt_succ_of_lt (hs.fresh c hc)
      calls := forall_lookup_insert
        ⟨Nat.lt_succ_self _, fun hmem => absurd (hs.fresh _ hmem) (lt_irrefl _), nofun⟩
        fun c call hc => ⟨Nat.lt_succ_of_lt (hs.calls c call hc).1, (hs.calls c call hc).2⟩ }
  | lock c =>
    split at h <;> cases h
    exact hs.locked ‹_›
  | send c =>
    obtain ⟨_, h⟩ := Option.ite_none_right_eq_some.1 h
    exact hs.sent ‹_› ‹_› h
  | cancel c =>
    split at h <;> cases h
    exact hs.refuse c _
  | stop => exact hs.stopCall
  | stopDone =>
    have hdone : (s.stopping && decide (s.idle = 0) && s.busy.isEmpty && !s.updater) := ‹_›
    simp only [Bool.and_eq_true, decide_eq_true_eq, List.isEmpty_iff] at hdone
    obtain ⟨⟨⟨hstopping, hidle⟩, hbusy⟩, -⟩ := hdone
    obtain ⟨hstarted, hclosed⟩ := hs.stopping hstopping
    have hgone : s.idle + s.busy.length < cfg.workers := by
      rw [hidle, hbusy]
      exact cfg.workers_pos
    refine Conserved.returnNil { hs with
      stopped := fun _ => ⟨hclosed, (hs.exits hstarted hgone).2, hbusy⟩
      stopping := nofun }
  | stopTimeout => exact { hs with stopping := nofun }
  | take =>
    rename_i item queue hqueue
    split at h <;> cases h
    have hidle : 0 < s.idle := ‹_›
    exact { hs with
      ids := by
        have htake := hs.ids
        rw [hqueue] at htake
        simpa using htake.take
      unstarted := fun h => by
        obtain ⟨hnone, -⟩ := hs.unstarted h
        omega
      exits := fun hstarted hgone => by
        have hgone' : s.idle + s.busy.length < cfg.workers := by
          simp only [length_append, length_singleton] at hgone
          omega
        have hempty := (hs.exits hstarted hgone').2
        rw [hqueue] at hempty
        cases hempty
      stopped := fun h => by
        have hempty := (hs.stopped h).2.1
        rw [hqueue] at hempty
        cases hempty }
  | finish i =>
    rename_i item hitem
    obtain ⟨hi, hget⟩ := List.getElem?_eq_some_iff.1 hitem
    have hlength : (s.busy.eraseIdx i).length + 1 = s.busy.length := by
      rw [length_eraseIdx_of_lt hi]
      omega
    exact { hs with
      ids := by
        have hbusy : (item :: s.busy.eraseIdx i).Perm s.busy := by
          rw [← hget]
          exact getElem_cons_eraseIdx_perm hi
        exact hs.ids.finish (hbusy.map Item.id)
      unstarted := fun h => by
        rw [(hs.unstarted h).2.1] at hi
        cases hi
      exits := fun hstarted hgone => hs.exits hstarted (by dsimp only at hgone; omega)
      stopped := fun h => by
        rw [(hs.stopped h).2.2] at hi
        cases hi }
  | exit =>
    have hexit : (decide (0 < s.idle) && s.closed && s.queue.isEmpty) := ‹_›
    simp only [Bool.and_eq_true, decide_eq_true_eq, List.isEmpty_iff] at hexit
    obtain ⟨⟨hidle, hclosed⟩, hqueue⟩ := hexit
    exact { hs with
      unstarted := fun h => by
        obtain ⟨hnone, -⟩ := hs.unstarted h
        omega
      exits := fun _ _ => ⟨hclosed, hqueue⟩ }

/-! ## Safety -/

variable {e : Event T}

theorem Safe.initial : Safe (State.initial T) := ⟨rfl, nodup_nil, rfl, rfl⟩

theorem not_safe_panic : ¬ Safe s.panic := fun h => nomatch h.calm

theorem Safe.refuse (h : Safe s) (c : ℕ) (error : PoolError) : Safe (s.refuse c error) :=
  { h with }

theorem safe_accept_iff (h : Safe s) : Safe (s.accept c call) ↔ call.late = false := by
  constructor
  · intro hsafe
    have htimely : (if call.late = true then s.lateAccepted ++ [c] else s.lateAccepted) = [] :=
      hsafe.timely
    by_contra hlate
    rw [if_pos (by simpa using hlate)] at htimely
    simp at htimely
  · intro hlate
    refine { h with timely := ?_ }
    show (if call.late = true then s.lateAccepted ++ [c] else s.lateAccepted) = []
    rw [hlate, if_neg (by simp)]
    exact h.timely

theorem Safe.returnNil (h : Safe s) (hdone : (s.accepted.filter fun c => c ∉ s.processed) = []) :
    Safe s.returnNil := by
  refine ⟨h.calm, h.once, h.timely, ?_⟩
  show s.lost ++ _ = []
  rw [h.drained, hdone]
  rfl

theorem safe_locked_iff (h : Safe s) : Safe (locked cfg s c call) ↔
      (!s.started || s.stopped || call.blocking ||
        (!s.closed && (!call.late || decide (cfg.queueSize ≤ s.queue.length)))) := by
  unfold locked
  split
  · exact iff_of_true (h.refuse c _) (by simp_all)
  split
  · exact iff_of_true (h.refuse c _) (by simp_all)
  split
  · exact iff_of_true { h with } (by simp_all)
  split
  · exact iff_of_false not_safe_panic (by simp_all)
  split
  · rw [safe_accept_iff h]
    simp_all
  · exact iff_of_true (h.refuse c _) (by simp_all)

theorem safe_stopCall_iff (hs : Conserved cfg s) (h : Safe s) :
    Safe (stopCall s) ↔ (!s.started || s.stopped || !s.closed) := by
  unfold stopCall
  split
  · refine iff_of_true (h.returnNil ?_) (by simp_all)
    have hidle : (!s.started || s.stopped) := ‹_›
    rcases (Bool.or_eq_true_iff).1 hidle with hstarted | hstopped
    · rw [(hs.unstarted (by simpa using hstarted)).2.2.2.1]
      rfl
    · exact hs.filter_eq_nil (hs.stopped hstopped).2.1 (hs.stopped hstopped).2.2
  · split
    · exact iff_of_false not_safe_panic (by simp_all)
    · exact iff_of_true { h with } (by simp_all)

/-- **A step leaves the pool safe exactly if it is orderly.** -/
theorem safe_step_iff (s : State T) (e : Event T) (s' : State T) (hs : Conserved cfg s)
    (hsafe : Safe s) (h : step cfg s e = some s') : Safe s' ↔ orderly cfg s e := by
  have hs' : Conserved cfg s' := hs.step s e s' h
  unfold step at h
  rw [if_neg (by simp [hsafe.calm])] at h
  cases e with (dsimp only at h; try split at h <;> try contradiction)
  | start =>
    refine iff_of_true ?_ rfl
    split at h <;> cases h
    · exact hsafe
    · exact { hsafe with }
  | call work blocking =>
    cases h
    exact iff_of_true { hsafe with } rfl
  | lock c =>
    rename_i call hcall
    split at h <;> cases h
    rw [safe_locked_iff hsafe]
    simp only [orderly, hcall]
  | send c =>
    rename_i call hcall
    obtain ⟨_, h⟩ := Option.ite_none_right_eq_some.1 h
    unfold sent at h
    simp only [orderly, hcall]
    split at h
    · cases h
      exact iff_of_false not_safe_panic (by simp_all)
    · split at h <;> cases h
      rw [safe_accept_iff hsafe]
      simp_all
  | cancel c =>
    refine iff_of_true ?_ rfl
    split at h <;> cases h
    exact hsafe.refuse c _
  | stop =>
    cases h
    exact safe_stopCall_iff hs hsafe
  | stopDone =>
    refine iff_of_true ?_ rfl
    cases h
    have hafter : Conserved cfg { s with stopped := true, stopping := false } := { hs' with }
    refine Safe.returnNil { hsafe with } ?_
    exact hafter.filter_eq_nil (hafter.stopped rfl).2.1 (hafter.stopped rfl).2.2
  | stopTimeout =>
    refine iff_of_true ?_ rfl
    cases h
    exact { hsafe with }
  | take =>
    refine iff_of_true ?_ rfl
    split at h <;> cases h
    exact { hsafe with }
  | finish i =>
    refine iff_of_true ?_ rfl
    cases h
    exact { hsafe with once := hs'.processed_nodup }
  | exit =>
    refine iff_of_true ?_ rfl
    cases h
    exact { hsafe with }

/-- **Conservation and shutdown.** For every pool and every run, the pool is safe in each state
the run passes exactly if every step is orderly. -/
theorem pool_safe_iff {es : List (Event T)} (h : run (step cfg) (.initial T) es = some s) :
    (∀ pre t, pre <+: es → run (step cfg) (.initial T) pre = some t → Safe t) ↔
      Along (step cfg) (fun s e => orderly cfg s e = true) (.initial T) es :=
  always_iff_along Conserved.step safe_step_iff .initial .initial h

/-- Where a `Stop` has returned the channel is closed, and so it is for late submissions. -/
structure LateClosed (s : State T) : Prop where
  returned : s.stopReturned = true → s.closed = true
  calls : ∀ c call, s.calls.lookup c = some call → call.late = true → s.closed = true

theorem LateClosed.refuse (h : LateClosed s) (c : ℕ) (error : PoolError) :
    LateClosed (s.refuse c error) :=
  ⟨h.returned, forall_lookup_erase h.calls⟩

theorem LateClosed.accept (h : LateClosed s) (c : ℕ) (call : Submission T) :
    LateClosed (s.accept c call) :=
  ⟨h.returned, forall_lookup_erase h.calls⟩

theorem LateClosed.step (hs : Conserved cfg s) (hlate : LateClosed s)
    (hstop : e = .stop → s.started = true) (h : step cfg s e = some s') : LateClosed s' := by
  obtain ⟨_, h⟩ := Option.ite_none_left_eq_some.1 h
  cases e with (dsimp only at h; (try split at h <;> try contradiction); try cases h)
  | start => split at h <;> cases h <;> exact { hlate with }
  | call work blocking =>
    exact ⟨hlate.returned, forall_lookup_insert hlate.returned hlate.calls⟩
  | lock c =>
    rename_i call hcall
    split at h <;> cases h
    unfold locked
    split_ifs
    · exact hlate.refuse c _
    · exact hlate.refuse c _
    · exact ⟨hlate.returned, forall_lookup_insert (hlate.calls c call hcall) hlate.calls⟩
    · exact { hlate with }
    · exact hlate.accept c call
    · exact hlate.refuse c _
  | send c =>
    obtain ⟨_, h⟩ := Option.ite_none_right_eq_some.1 h
    unfold sent at h
    split_ifs at h <;> cases h
    · exact { hlate with }
    · exact hlate.accept c _
  | cancel c =>
    split at h <;> cases h
    exact hlate.refuse c _
  | stop =>
    unfold stopCall
    split_ifs with hidle
    · have hstopped : s.stopped := by simpa [hstop rfl] using hidle
      exact ⟨fun _ => (hs.stopped hstopped).1, hlate.calls⟩
    · exact { hlate with }
    · exact ⟨fun _ => rfl, fun _ _ _ _ => rfl⟩
  | stopDone =>
    have hdone : (s.stopping && decide (s.idle = 0) && s.busy.isEmpty && !s.updater) := ‹_›
    simp only [Bool.and_eq_true] at hdone
    exact ⟨fun _ => (hs.stopping hdone.1.1.1).2, hlate.calls⟩
  | stopTimeout => exact ⟨fun _ => (hs.stopping ‹_›).2, hlate.calls⟩
  | take =>
    split at h <;> cases h
    exact { hlate with }
  | finish | exit => exact { hlate with }

/-- **A late submission meets an open channel only after a `Stop` before `Start`.** -/
theorem closed_of_late (h : run (step cfg) (.initial T) es = some s)
    (hstart : Along (step cfg) (fun s e => e = .stop → s.started = true) (.initial T) es)
    (hc : s.calls.lookup c = some call) (hlate : call.late = true) : s.closed = true := by
  have hinv : Conserved cfg s ∧ LateClosed s := by
    refine run_invariant_along (I := fun s => Conserved cfg s ∧ LateClosed s) ?_
      ⟨.initial, nofun, nofun⟩ hstart h
    exact fun s e s' ⟨hs, hl⟩ hstop hstep => ⟨hs.step s e s' hstep, hl.step hs hstop hstep⟩
  exact hinv.2.calls c call hc hlate

/-- Only a `Stop` that sees the workers and the updater end sets the flag. -/
theorem stopped_step (h : step cfg s e = some s') :
    s'.stopped = s.stopped ∨ (s.stopping ∧ s.updater = false) := by
  obtain ⟨_, h⟩ := Option.ite_none_left_eq_some.1 h
  cases e with
  | stopDone => exact .inr (by simp_all)
  | lock c =>
    dsimp only at h
    split at h
    · split at h <;> cases h
      unfold locked
      refine .inl ?_
      split_ifs <;> rfl
    · cases h
  | send c =>
    dsimp only at h
    split at h
    · split at h
      · unfold sent at h
        split_ifs at h <;> cases h <;> exact .inl rfl
      · cases h
    · cases h
  | stop =>
    dsimp only at h
    split at h <;> cases h
    unfold stopCall
    refine .inl ?_
    split_ifs <;> rfl
  | _ =>
    refine .inl ?_
    dsimp only at h
    repeat' split at h
    all_goals cases h <;> rfl

/-- **With metrics no `Stop` sees the workers end**: it waits for the updater too, which ends
with the run context only. -/
theorem stopped_of_metrics (hmetrics : cfg.metrics) {es : List (Event T)}
    (h : run (step cfg) (.initial T) es = some s) : s.stopped = false := by
  have hinv : Conserved cfg s ∧ s.stopped = false := by
    refine run_invariant (I := fun s => Conserved cfg s ∧ s.stopped = false) ?_ ⟨.initial, rfl⟩ h
    rintro s e s' ⟨hs, hstopped⟩ hstep
    refine ⟨hs.step s e s' hstep, ?_⟩
    rcases stopped_step hstep with hsame | ⟨hstopping, hupdater⟩
    · rw [hsame]
      exact hstopped
    · rw [hs.updater, (hs.stopping hstopping).1, hmetrics] at hupdater
      cases hupdater
  exact hinv.2

theorem stopped_of_metrics_idle : ∃ s, run (step (newPool 1 1 true)) (.initial Unit)
    [.start, .stop, .exit] = some s ∧ s.idle = 0 ∧ s.stopped = false := by
  refine' ⟨_, ?run, ?_, stopped_of_metrics rfl ?run⟩ <;> rfl

def Event.ofWorkers : Event T → Bool
  | .take | .finish _ | .exit => true
  | _ => false

/-- An item is still taken and finished, and each worker exits. -/
def State.left (s : State T) : ℕ := 3 * s.queue.length + 2 * s.busy.length + s.idle

/-- While a `Stop` waits for the workers, one of them has a step. -/
theorem worker_step (hs : Conserved cfg s) (hwait : s.stopping) (hcalm : s.panicked = false) :
    s.idle = 0 ∧ s.busy = [] ∨ ∃ e t, e.ofWorkers ∧ step cfg s e = some t ∧
      (t.stopping ∧ t.panicked = false ∧ t.accepted = s.accepted) ∧ t.left < s.left := by
  have hclosed := (hs.stopping hwait).2
  rcases hbusy : s.busy with _ | ⟨item, busy⟩
  · rcases Nat.eq_zero_or_pos s.idle with hidle | hidle
    · exact .inl ⟨hidle, rfl⟩
    · rcases hqueue : s.queue with _ | ⟨item, queue⟩
      · exact .inr ⟨.exit, by simp [step, Event.ofWorkers, State.left, Nat.sub_lt hidle, *]⟩
      · exact .inr ⟨.take, by simp [step, Event.ofWorkers, State.left, *]; omega⟩
  · exact .inr ⟨.finish 0, by simp [step, Event.ofWorkers, State.left, *]; omega⟩

/-- **Without metrics a `Stop` that waits can complete**: from every state of every run, by steps
of the workers alone, and then all that was accepted is processed. -/
theorem stop_completes (hmetrics : cfg.metrics = false) {es : List (Event T)}
    (h : run (step cfg) (.initial T) es = some s) (hwait : s.stopping) (hcalm : s.panicked = false) :
    ∃ es' s', (∀ e ∈ es', e.ofWorkers) ∧ run (step cfg) s (es' ++ [.stopDone]) = some s' ∧
      s'.stopped ∧ s'.processed.Perm s.accepted := by
  obtain ⟨es', t, hes, hrun, ⟨ht, hwait, hcalm, hacc⟩, hidle, hbusy⟩ := exists_run_of_measure
    (I := fun t => Conserved cfg t ∧ t.stopping ∧ t.panicked = false ∧ t.accepted = s.accepted)
    State.left (fun t ⟨ht, hwait, hcalm, hacc⟩ => (worker_step ht hwait hcalm).imp_right
      fun ⟨e, t', he, hstep, ⟨hwait, hcalm, hsame⟩, hlt⟩ =>
        ⟨e, t', he, hstep, ⟨ht.step t e t' hstep, hwait, hcalm, hsame.trans hacc⟩, hlt⟩)
    ⟨run_invariant Conserved.step .initial h, hwait, hcalm, rfl⟩
  -- All workers are gone, so the queue is empty.
  have hqueue := (ht.exits (ht.stopping hwait).1 (by simp [hidle, hbusy, cfg.workers_pos])).2
  have hupdater : t.updater = false := by rw [ht.updater, hmetrics, Bool.and_false]
  have hids := ht.ids
  rw [hqueue, hbusy, hacc] at hids
  have hdone : step cfg t .stopDone =
      some { t with stopped := true, stopping := false }.returnNil := by simp [step, *]
  exact ⟨es', _, hes, run_append_of hrun (run_cons_eq_some.2 ⟨_, hdone, rfl⟩), rfl, hids⟩

theorem stop_completes_queued : ∃ es s, run (step (newPool 1 1 false)) (.initial Unit)
    ([.start, .call () false, .lock 0, .stop] ++ es) = some s ∧ s.processed.Perm [0] := by
  obtain ⟨es, s, -, hrun, -, hids⟩ := @stop_completes Unit (newPool 1 1 false) _ rfl
    [.start, .call () false, .lock 0, .stop] rfl rfl rfl
  exact ⟨_, s, hrun, hids⟩

/-! ## Runs -/

/-- One worker, a queue of one. -/
def single : Config := newPool 1 1 false

/-- An item is accepted and processed, and the pool is stopped. -/
def drainedRun : List (Event Unit) :=
  [.start, .call () false, .lock 0, .take, .stop, .finish 0, .exit, .stopDone, .call () false,
    .lock 1]

theorem pool_safe_iff_drained :
    ∃ s, run (step single) (.initial Unit) drainedRun = some s ∧ s.stopped = true ∧
      s.processed = [0] ∧ s.refused = [(1, .stopped)] ∧ Safe s := by
  refine exists_end (P := fun s => s.stopped ∧ s.processed = [0] ∧
    s.refused = [(1, .stopped)]) (by decide +kernel) fun s hrun hs => ?_
  have halong : Along (step single) (fun s e => orderly single s e = true) (.initial Unit)
      drainedRun := by decide +kernel
  exact ⟨hs.1, hs.2.1, hs.2.2, (pool_safe_iff hrun).2 halong drainedRun s prefix_rfl hrun⟩

/-- A `Stop` times out while the worker processes an item. -/
def timedOut : List (Event Unit) :=
  [.start, .call () false, .lock 0, .take, .stop, .stopTimeout]

/-- **A `Stop` after one that timed out panics, and so does a `Submit`; a `SubmitBlocking` past
its check panics when the channel is closed; and a pool stopped before it was started accepts
what is submitted after the `Stop` returned.** -/
theorem shutdown_unsafe :
    (∃ s, run (step single) (.initial Unit) (timedOut ++ [.stop]) = some s ∧ s.panicked = true) ∧
    (∃ s, run (step single) (.initial Unit) (timedOut ++ [.call () false, .lock 1]) = some s ∧
      s.panicked = true) ∧
    (∃ s, run (step single) (.initial Unit) [.start, .call () true, .lock 0, .stop, .send 0]
      = some s ∧ s.panicked = true) ∧
    ∃ s, run (step single) (.initial Unit) [.stop, .call () false, .start, .lock 0] = some s ∧
      s.lateAccepted = [0] := by
  refine ⟨?_, ?_, ?_, ?_⟩ <;> decide +kernel

end SemStreams.Worker
