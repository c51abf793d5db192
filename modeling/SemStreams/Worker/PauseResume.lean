import SemStreams.Lib.Run
import Mathlib.Data.Int.Basic
/-!
# clustering, inference — pausing the workers

`EnhancementWorker` and `ReviewWorker` share their pause code. A goroutine asks `IsPaused` in one
critical section of `pauseMu` and takes the channel `resumeCh` in another, in `waitForResume`.
`Resume` closes the channel and puts a new one in its place.

A `Resume` between the two leaves the goroutine with the new channel, which the next `Resume`
closes and this one does not: it waits while the worker is not paused.

`Pause` and `Resume` hold `pauseMu` throughout and are one step each. Nobody reads `pauseCh`.
-/

namespace SemStreams.PauseResume

open Function List

/-- The two workers, with the count each is given. -/
inductive Worker where
  | enhancement (workers : ℤ)
  | review (workers : ℤ)

/-- How many goroutines `Start` starts. -/
def Worker.goroutines : Worker → ℕ
  | .enhancement workers => workers.toNat
  | .review workers => if workers ≤ 0 then 1 else workers.toNat

/-- Where a goroutine is in the loop of `processCommunities` or `processAnomalies`. -/
inductive Position where
  | top
  | sawPaused
  | waiting (ch : ℕ)
  | selecting
  | returned
deriving DecidableEq

/-- The state under `pauseMu`, the channels that were closed, whether the context of the run was
cancelled, and where the goroutines are. Channels are numbered as they are made. -/
structure State where
  paused : Bool := false
  resumeCh : ℕ := 0
  closed : List ℕ := []
  cancelled : Bool := false
  positions : ℕ → Position := fun _ => .top

/-- A step of one goroutine. `handled` is an entry of the watcher, or the end of its channel. -/
inductive Move where
  | isPaused
  | waitForResume
  | resumed
  | cancelled
  | handled (more : Bool)

def State.pause (s : State) : State :=
  if s.paused then s else { s with paused := true }

def State.resume (s : State) : State :=
  if s.paused then
    { s with
      paused := false
      closed := s.resumeCh :: s.closed
      resumeCh := s.resumeCh + 1 }
  else s

def move (s : State) : Position → Move → Option Position
  | .top, .isPaused => some (if s.paused then .sawPaused else .selecting)
  | .sawPaused, .waitForResume => some (.waiting s.resumeCh)
  | .waiting ch, .resumed => if ch ∈ s.closed then some .selecting else none
  | .waiting _, .cancelled => if s.cancelled then some .returned else none
  | .selecting, .cancelled => if s.cancelled then some .returned else none
  | .selecting, .handled more => some (if more then .top else .returned)
  | _, _ => none

inductive Event where
  | pause
  | resume
  | cancel
  | goroutine (i : ℕ) (m : Move)

def step (w : Worker) (s : State) : Event → Option State
  | .pause => some s.pause
  | .resume => some s.resume
  | .cancel => some { s with cancelled := true }
  | .goroutine i m =>
    if i < w.goroutines then
      (move s (s.positions i) m).map fun p => { s with positions := update s.positions i p }
    else none

/-- No goroutine waits on an open channel while the worker is not paused. -/
def Released (s : State) : Prop :=
  s.paused = false → ∀ i ch, s.positions i = .waiting ch → ch ∈ s.closed

def Event.takesChannel : Event → Bool
  | .goroutine _ .waitForResume => true
  | _ => false

/-- A goroutine takes the channel only while the worker is paused. -/
def TakenPaused (s : State) (e : Event) : Prop :=
  e.takesChannel = true → s.paused = true

instance (s : State) (e : Event) : Decidable (TakenPaused s e) :=
  inferInstanceAs (Decidable (_ → _))

/-- The channels before the current one are the closed ones, and nobody waits on a later one. -/
structure Numbered (s : State) : Prop where
  closed : ∀ ch, ch ∈ s.closed ↔ ch < s.resumeCh
  waiting : ∀ i ch, s.positions i = .waiting ch → ch ≤ s.resumeCh

variable {w : Worker} {s : State}

/-- Only `waitForResume` begins a wait, and it waits on the current channel. -/
theorem move_waiting (h : move s p m = some (.waiting ch)) :
    m = .waitForResume ∧ ch = s.resumeCh := by
  unfold move at h
  split at h <;> grind

/-- Who waits after a step of goroutine `i` waited before, or began it. -/
theorem waiting_update (hmove : move s (s.positions i) m = some p)
    (h : update s.positions i p j = .waiting ch) :
    s.positions j = .waiting ch ∨ (m = .waitForResume ∧ ch = s.resumeCh) := by
  by_cases hji : j = i
  · subst hji
    rw [update_self] at h
    exact .inr (move_waiting (h ▸ hmove))
  · rw [update_of_ne hji] at h
    exact .inl h

theorem Numbered.step (s : State) (e : Event) (s' : State) (hs : Numbered s)
    (h : step w s e = some s') : Numbered s' := by
  cases e with
  | pause =>
    cases h
    unfold State.pause
    split
    · exact hs
    · exact { hs with }
  | cancel =>
    cases h
    exact { hs with }
  | resume =>
    cases h
    unfold State.resume
    split
    · refine ⟨fun ch => ?_, fun i ch hi => Nat.le_succ_of_le (hs.waiting i ch hi)⟩
      rw [mem_cons, hs.closed, Nat.lt_succ_iff_lt_or_eq, or_comm]
    · exact hs
  | goroutine i m =>
    simp only [PauseResume.step, Option.ite_none_right_eq_some, Option.map_eq_some_iff] at h
    obtain ⟨-, p, hmove, rfl⟩ := h
    refine { hs with waiting := fun j ch hj => ?_ }
    rcases waiting_update hmove hj with hj | ⟨-, rfl⟩
    · exact hs.waiting j ch hj
    · exact le_rfl

/-- **One step.** A step keeps the waits released unless it takes the channel of a worker that
is not paused. -/
theorem released_step (s : State) (e : Event) (s' : State) (hs : Numbered s) (hrel : Released s)
    (h : step w s e = some s') : Released s' ↔ TakenPaused s e := by
  cases e with
  | pause =>
    cases h
    refine iff_of_true ?_ nofun
    unfold State.pause
    split
    · exact hrel
    · exact fun hpaused => nomatch hpaused
  | cancel =>
    cases h
    exact iff_of_true hrel nofun
  | resume =>
    cases h
    refine iff_of_true ?_ nofun
    unfold State.resume
    split
    · intro _ i ch hi
      rw [mem_cons, hs.closed]
      exact Nat.eq_or_lt_of_le (hs.waiting i ch hi)
    · exact hrel
  | goroutine i m =>
    simp only [PauseResume.step, Option.ite_none_right_eq_some, Option.map_eq_some_iff] at h
    obtain ⟨-, p, hmove, rfl⟩ := h
    by_cases hm : m = .waitForResume
    · subst hm
      constructor
      · intro hrel'
        by_contra hrunning
        -- The goroutine now waits on the current channel, which is open.
        have hp : p = .waiting s.resumeCh := by
          unfold move at hmove
          split at hmove <;> grind
        have hclosed : s.resumeCh ∈ s.closed :=
          hrel' (by simpa [TakenPaused, Event.takesChannel] using hrunning) i _ ((update_self ..).trans hp)
        exact lt_irrefl _ ((hs.closed _).1 hclosed)
      · intro hpaused hrunning
        exact absurd ((hpaused rfl).symm.trans hrunning) (by decide)
    · refine iff_of_true (fun hrunning j ch hj => ?_) (by cases m <;> first | exact absurd rfl hm | nofun)
      rcases waiting_update hmove hj with hj | ⟨rfl, -⟩
      · exact hrel hrunning j ch hj
      · exact absurd rfl hm

/-- **No lost wake-up, exactly.** For either worker and every run, nobody waits on an open channel
in any state in which the worker is not paused, exactly if every goroutine that saw the worker
paused takes the channel while it still is. -/
theorem released_iff {es : List Event} (h : run (step w) {} es = some s) :
    (∀ pre t, pre <+: es → run (step w) {} pre = some t → Released t) ↔
      Along (step w) TakenPaused {} es :=
  always_iff_along Numbered.step released_step
    ⟨fun _ => iff_of_false (not_mem_nil) (Nat.not_lt_zero _), fun _ _ hi => nomatch hi⟩
    (fun _ _ _ hi => nomatch hi) h

/-- A goroutine that waits before the `Resume` goes on after it. -/
theorem released_iff_one_goroutine :
    ∃ s, run (step (.review 0)) {} [.pause, .goroutine 0 .isPaused, .goroutine 0 .waitForResume,
      .resume, .goroutine 0 .resumed] = some s ∧ Released s := by
  refine exists_end (P := fun _ => True) (by decide) fun s hrun _ => ?_
  exact (released_iff hrun).2 (by decide) _ s (prefix_refl _) hrun

/-- A `Resume` between the check and the channel. -/
theorem resume_lost : ∃ s, run (step (.enhancement 3)) {} [.pause, .goroutine 0 .isPaused, .resume,
      .goroutine 0 .waitForResume] = some s ∧
      s.paused = false ∧ s.positions 0 = .waiting 1 ∧ 1 ∉ s.closed := by
  decide

end SemStreams.PauseResume
