import SemStreams.Lib.Run
import Mathlib.Data.Int.Basic
/-!
# rule — the cooldown of a cron rule

`fire` loads the last fire time and passes the cooldown gate on it before it takes the in-flight
flag. A tick that waits between the two while another one dispatches goes on with the old time:
its gate was passed on a fire that is no longer the last.

A tick begins here once it is past `ready` and has found the entry of its rule.
-/

namespace SemStreams.CronCooldown

open Function List

/-- What `fire` reads of a rule. The cooldown is in nanoseconds. -/
structure Rule where
  cooldown : ℕ
  fireEveryN : ℤ := 0

/-- Where a callback of `fire` is, with the time it loaded or the one it is about to record. -/
inductive Position where
  | idle
  | due
  | loaded (previous : ℕ)
  | passed (previous : ℕ)
  | inflight (previous : ℕ)
  | running
  | fired (firedAt : ℕ)
  | dispatched
  | returned
deriving DecidableEq

/-- The entry of the rule and the clock. `early` is set where a dispatch begins within the cooldown
of the fire recorded last. -/
structure Entry where
  now : ℕ
  lastFired : ℕ
  tickCount : ℕ := 0
  inflight : Bool := false
  early : Bool := false

/-- A step of one callback. The lane refuses a dispatch or begins it; its actions end, or panic;
only then is the time read and stored. -/
inductive Move where
  | count
  | load
  | gate
  | swap
  | refuse
  | begin
  | panic
  | finish
  | record
  | release

def Entry.within (rule : Rule) (s : Entry) (previous : ℕ) : Bool :=
  decide (0 < previous) && decide (s.now < previous + rule.cooldown)

def move (rule : Rule) (s : Entry) : Position → Move → Option (Entry × Position)
  | .idle, .count =>
    let tick := s.tickCount + 1
    some ({ s with tickCount := tick },
      if 1 < rule.fireEveryN && tick % rule.fireEveryN ≠ 0 then .returned else .due)
  | .due, .load => some (s, .loaded s.lastFired)
  | .loaded previous, .gate =>
    some (s, if s.within rule previous then .returned else .passed previous)
  | .passed previous, .swap =>
    some (if s.inflight then (s, .returned) else ({ s with inflight := true }, .inflight previous))
  | .inflight _, .refuse => some (s, .dispatched)
  | .inflight _, .begin => some ({ s with early := s.early || s.within rule s.lastFired }, .running)
  | .running, .panic => some (s, .dispatched)
  | .running, .finish => some (s, .fired s.now)
  | .fired firedAt, .record => some ({ s with lastFired := firedAt }, .dispatched)
  | .dispatched, .release => some ({ s with inflight := false }, .returned)
  | _, _ => none

structure State where
  entry : Entry
  ticks : ℕ → Position := fun _ => .idle

/-- A rule as it is registered, with the fire time its schedule record holds, or zero. The clock is
past both. -/
def State.registered (lastFired elapsed : ℕ) : State where
  entry := { now := lastFired + elapsed + 1, lastFired := lastFired }

inductive Event where
  | elapse (nanos : ℕ)
  | tick (i : ℕ) (m : Move)

def step (rule : Rule) (s : State) : Event → Option State
  | .elapse nanos => some { s with entry.now := s.entry.now + nanos }
  | .tick i m => (move rule s.entry (s.ticks i) m).map fun r => ⟨r.1, update s.ticks i r.2⟩

/-- The actions do not overlap, and no dispatch began within the cooldown of the last fire. -/
structure Cooled (s : State) : Prop where
  alone : ∀ i j, s.ticks i = .running → s.ticks j = .running → i = j
  apart : s.entry.early = false

/-- A dispatch begins while the time its tick loaded is the last, or past the cooldown of the last. -/
def stillDue (rule : Rule) (s : State) : Event → Bool
  | .tick i .begin =>
    match s.ticks i with
    | .inflight previous =>
      decide (previous = s.entry.lastFired) ||
        decide (s.entry.lastFired + rule.cooldown ≤ s.entry.now)
    | _ => true
  | _ => true

/-- The callback that has the flag. -/
def Position.holds : Position → Bool
  | .inflight _ | .running | .fired _ | .dispatched => true
  | _ => false

/-- What a callback knows: its time is not later than the last, and its gate stays passed. -/
def Position.Ok (rule : Rule) (s : Entry) : Position → Prop
  | .loaded previous => previous ≤ s.lastFired
  | .passed previous | .inflight previous =>
    previous ≤ s.lastFired ∧ (previous = 0 ∨ previous + rule.cooldown ≤ s.now)
  | .fired firedAt => s.lastFired ≤ firedAt ∧ firedAt ≤ s.now
  | _ => True

structure Inv (rule : Rule) (s : State) : Prop where
  last : s.entry.lastFired ≤ s.entry.now
  ok : ∀ i, (s.ticks i).Ok rule s.entry
  flag : ∀ i, (s.ticks i).holds = true → s.entry.inflight = true
  alone : ∀ i j, (s.ticks i).holds = true → (s.ticks j).holds = true → i = j

variable {rule : Rule} {s s' : Entry} {p : Position}

/-- The time only grows, and only the holder of the flag changes it. -/
theorem move_ok (h : move rule s p m = some (s', p')) (hp : p.Ok rule s)
    (hlast : s.lastFired ≤ s.now) :
    p'.Ok rule s' ∧ s'.now = s.now ∧ s'.lastFired ≤ s'.now ∧ s.lastFired ≤ s'.lastFired ∧
      (p.holds = false → s'.lastFired = s.lastFired) := by
  unfold move at h
  split at h <;> grind [Position.Ok, Position.holds, Entry.within]

theorem move_flag (h : move rule s p m = some (s', p')) :
    (p'.holds → p.holds ∨ s.inflight = false) ∧
      (p'.holds → s.inflight ∨ p.holds = false → s'.inflight) ∧
      (p.holds = false → s.inflight → s'.inflight) := by
  unfold move at h
  split at h <;> grind [Position.holds]

theorem Position.Ok.mono (hp : p.Ok rule s) (hnow : s.now ≤ s'.now)
    (hlast : s.lastFired ≤ s'.lastFired) (hsame : p.holds → s'.lastFired = s.lastFired) :
    p.Ok rule s' := by
  cases p <;> simp_all [Position.Ok, Position.holds] <;> omega

theorem Inv.step (s : State) (e : Event) (s' : State) (hs : Inv rule s)
    (h : step rule s e = some s') : Inv rule s' := by
  cases e with
  | elapse nanos =>
    cases h
    exact { hs with
      last := Nat.le_add_right_of_le hs.last
      ok := fun i => (hs.ok i).mono (Nat.le_add_right _ _) le_rfl fun _ => rfl }
  | tick i m =>
    obtain ⟨⟨entry, p⟩, hmove, rfl⟩ := Option.map_eq_some_iff.1 h
    obtain ⟨hp, hnow, hlast, hgrows, hsame⟩ := move_ok hmove (hs.ok i) hs.last
    obtain ⟨hnew, htaken, hkept⟩ := move_flag hmove
    -- Nobody else holds the flag while this callback does, before the step or after it.
    have hother : ∀ j, j ≠ i → (s.ticks j).holds →
        (s.ticks i).holds = false ∧ p.holds = false := by
      intro j hj hholds
      have hfree : (s.ticks i).holds = false := by
        by_contra hi
        exact hj (hs.alone j i hholds (by simpa using hi))
      have := hs.flag j hholds
      grind
    refine ⟨hlast, (forall_update_iff _ fun _ => Position.Ok rule entry).2 ⟨hp, fun j hj => ?_⟩,
      fun j hj => ?_, fun j k hj hk => ?_⟩
    · exact (hs.ok j).mono (Nat.le_of_eq hnow.symm) hgrows fun hholds => hsame (hother j hj hholds).1
    · have := hs.flag j
      have := hs.flag i
      grind
    · have := hs.alone j k
      grind

theorem Inv.registered : Inv rule (.registered lastFired elapsed) :=
  ⟨Nat.le_add_right _ (elapsed + 1), fun _ => trivial, nofun, nofun⟩

/-- **One step** keeps the rule cooled exactly if it begins no dispatch that is not still due. -/
theorem cooled_step (s : State) (e : Event) (s' : State) (hs : Inv rule s) (hcool : Cooled s)
    (h : step rule s e = some s') : Cooled s' ↔ stillDue rule s e := by
  have hs' := hs.step s e s' h
  have hiff : Cooled s' ↔ s'.entry.early = false :=
    ⟨Cooled.apart, fun hearly =>
      ⟨fun i j hi hj => hs'.alone i j (by rw [hi]; rfl) (by rw [hj]; rfl), hearly⟩⟩
  rw [hiff]
  cases e with
  | elapse nanos =>
    cases h
    exact iff_of_true hcool.apart rfl
  | tick i m =>
    obtain ⟨⟨entry, p⟩, hmove, rfl⟩ := Option.map_eq_some_iff.1 h
    have hi := hs.ok i
    have := hcool.apart
    unfold move at hmove
    split at hmove <;> grind [Position.Ok, stillDue, Entry.within]

/-- **The cooldown, exactly.** For every rule and every run of its ticks, the actions overlap in no
state and no dispatch began within the cooldown of the last fire, exactly if every dispatch begins
while it is still due. -/
theorem cooled_iff {es : List Event} {lastFired elapsed : ℕ} {s : State}
    (h : run (step rule) (.registered lastFired elapsed) es = some s) :
    (∀ pre t, pre <+: es → run (step rule) (.registered lastFired elapsed) pre = some t → Cooled t) ↔
      Along (step rule) (fun s e => stillDue rule s e = true) (.registered lastFired elapsed) es :=
  always_iff_along Inv.step cooled_step .registered ⟨nofun, rfl⟩ h

/-- A dispatch begins only if no other was recorded since its tick loaded the last. -/
def lastLoaded (s : State) : Event → Bool
  | .tick i .begin =>
    match s.ticks i with
    | .inflight previous => decide (previous = s.entry.lastFired)
    | _ => true
  | _ => true

/-- So the rule is cooled where no fire is recorded between a tick's load and its dispatch. -/
theorem cooled_of_lastLoaded {es : List Event} {lastFired elapsed : ℕ} {s : State}
    (hlast : Along (step rule) (fun s e => lastLoaded s e = true) (.registered lastFired elapsed) es)
    (h : run (step rule) (.registered lastFired elapsed) es = some s) : Cooled s := by
  have hinv : Inv rule s ∧ Cooled s := by
    refine run_invariant_along (I := fun s => Inv rule s ∧ Cooled s) ?_
      ⟨.registered, nofun, rfl⟩ hlast h
    rintro s e s' ⟨hs, hcool⟩ hlast hstep
    refine ⟨hs.step s e s' hstep, (cooled_step s e s' hs hcool hstep).2 ?_⟩
    revert hlast
    unfold lastLoaded stillDue
    split
    · split <;> simp +contextual
    · exact id
  exact hinv.2

/-- A callback up to its gate, and from the flag to the end of its dispatch. -/
def gated (i : ℕ) : List Event := [.count, .load, .gate].map (.tick i)

def dispatch (i : ℕ) : List Event :=
  [.swap, .begin, .finish, .record, .release].map (.tick i)

/-- A second tick past the cooldown dispatches again. -/
theorem cooled_iff_two_fires : ∃ s, run (step ⟨5, 0⟩) (.registered 0 8)
      (gated 0 ++ dispatch 0 ++ .elapse 5 :: (gated 1 ++ dispatch 1)) = some s ∧
      s.entry.lastFired = 14 ∧ Cooled s := by
  refine exists_end (P := fun s => s.entry.lastFired = 14) (by decide) fun s hrun hs => ?_
  exact ⟨hs, (cooled_iff hrun).2 (by decide) _ s (prefix_refl _) hrun⟩

/-- **Two ticks pass the gate together and dispatch one after the other**, at the same time. -/
theorem early_of_overlap :
    ∃ s, run (step ⟨5, 0⟩) (.registered 0 8) (gated 0 ++ gated 1 ++ dispatch 0 ++
      [.tick 1 .swap, .tick 1 .begin]) = some s ∧ s.entry.lastFired = 9 ∧ s.entry.now = 9 ∧
      s.ticks 1 = .running ∧ s.entry.early = true := by
  decide

end SemStreams.CronCooldown
