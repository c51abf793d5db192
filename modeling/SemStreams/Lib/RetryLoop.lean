import SemStreams.Lib.Bucket
/-!
# Read, compute, compare and set, again

A value is read, a closure computes the one to store, and the write is retried
where the store did not answer. A closure that gives an error ends the loop. The
closure may keep a state of its own between attempts, and reads something of its
surroundings, a clock for example, in each of them.

The loop is seen at a key nobody else writes.
-/

namespace SemStreams

variable {β σ ρ ε : Type*}

/-- An attempt: its read fails, or the closure runs and its write, if there is one,
is answered so. -/
inductive RetryAttempt (ρ : Type*)
  | unread
  | attempt (reading : ρ) (answer : StoreAnswer)

/-- The value at the end, and the number of writes that landed. -/
def retryLoop (closure : σ → ρ → Option β → Except ε β × σ) :
    σ → Option β → List (RetryAttempt ρ) → Option β × ℕ
  | _, current, [] => (current, 0)
  | s, current, .unread :: rest => retryLoop closure s current rest
  | s, current, .attempt reading answer :: rest =>
    match closure s reading current with
    | (.error _, _) => (current, 0)
    | (.ok value, s') =>
      match answer with
      | .ok => (some value, 1)
      | .failed true =>
        let (last, landed) := retryLoop closure s' (some value) rest
        (last, landed + 1)
      | .failed false => retryLoop closure s' current rest

variable {closure : σ → ρ → Option β → Except ε β × σ} {s : σ} {current : Option β}

/-- A closure that gives an error on every reading writes nothing. -/
theorem retryLoop_of_error (h : ∀ reading, ∃ err, (closure s reading current).1 = .error err)
    (attempts : List (RetryAttempt ρ)) : retryLoop closure s current attempts = (current, 0) := by
  induction attempts with
  | nil => rfl
  | cons a attempts ih =>
    cases a with
    | unread => exact ih
    | attempt reading answer =>
      obtain ⟨err, herr⟩ := h reading
      rw [retryLoop]
      generalize hc : closure s reading current = c at herr
      obtain ⟨_, _⟩ := c
      subst herr
      rfl

/-- **The loop can only be kept from writing by the closure.** -/
theorem retryLoop_untouched_iff :
    (∀ attempts, retryLoop closure s current attempts = (current, 0)) ↔
      ∀ reading, ∃ err, (closure s reading current).1 = .error err := by
  refine ⟨?_, retryLoop_of_error⟩
  intro h reading
  have hone := h [.attempt reading .ok]
  rw [retryLoop] at hone
  generalize hc : closure s reading current = c at hone
  obtain ⟨result, _⟩ := c
  cases result with
  | error err => exact ⟨err, rfl⟩
  | ok value => simp at hone

end SemStreams
