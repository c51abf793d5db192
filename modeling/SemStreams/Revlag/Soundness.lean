import SemStreams.Lib.Run
import SemStreams.Revlag.Watermark
/-!
# revlag — what the watermark says over a whole run

Revisions are observed in ascending order and completed in any. Beside the
watermark stand two accounts no call reads: what was delivered, with commit
times, and which of it is not completed yet. The watermark never goes back,
nothing at or below it is outstanding, and the time it reports is the commit time
of a delivered revision it covers and is only ever replaced by that of a newer one.
-/

namespace SemStreams.Revlag

open List Option Watermark

variable {κ : Type*}

/-- A watermark, the revisions delivered to it with their commit times, oldest
first, and those no call has completed since, with their keys. -/
structure Delivery (κ : Type*) where
  mark : Watermark κ
  delivered : List (ℕ × ℕ)
  outstanding : List (ℕ × κ)

namespace Delivery

def start : Delivery κ := ⟨Watermark.new, [], []⟩

def newest (s : Delivery κ) : ℕ := (s.delivered.getLast?.map Prod.fst).getD 0

inductive Event (κ : Type*)
  | observe (r : ℕ) (key : κ) (commitAt : ℕ)
  | complete (key : κ) (rev : ℕ)

/-- Observed revisions ascend; revision `0` is none. A call of `Complete` is about
what was delivered for its key up to its revision. -/
def step [DecidableEq κ] (s : Delivery κ) : Event κ → Option (Delivery κ)
  | .observe r key commitAt =>
    if s.newest < r ∨ r = 0 then
      some ⟨s.mark.observe r key commitAt,
        if r = 0 then s.delivered else s.delivered ++ [(r, commitAt)],
        if r = 0 then s.outstanding else s.outstanding ++ [(r, key)]⟩
    else none
  | .complete key rev =>
    some
      { s with
        mark := s.mark.complete key rev
        outstanding := s.outstanding.filter fun p => ¬(p.2 = key ∧ p.1 ≤ rev) }

/-- **What the watermark says is so.** Nothing at or below it is outstanding, it is
the newest delivered revision where nothing is, and the time it reports is zero
or the commit time of a delivered revision it covers. -/
structure Sound (s : Delivery κ) : Prop where
  done : ∀ p ∈ s.outstanding, s.mark.indexed < p.1
  caughtUp : s.outstanding = [] → s.mark.indexed = s.newest
  covered : s.mark.coveredRev = 0 ∧ s.mark.coveredAt = 0 ∨
    (s.mark.coveredRev, s.mark.coveredAt) ∈ s.delivered ∧ s.mark.coveredRev ≤ s.mark.indexed

/-- **The watermark does not go back**, and the time it reports is kept or replaced
by that of a newer revision. -/
structure Advances (s s' : Delivery κ) : Prop where
  indexed : s.mark.indexed ≤ s'.mark.indexed
  covered : s.mark.coveredRev = s'.mark.coveredRev ∧ s.mark.coveredAt = s'.mark.coveredAt ∨
    s.mark.coveredRev < s'.mark.coveredRev

end Delivery

/-! ## The lowest revision in flight -/

variable {pending : List (ℕ × Inflight κ)} {w : Watermark κ} {n : ℕ}

theorem exists_minRev (h : pending ≠ []) : ∃ p ∈ pending, p.1 = minRev pending := by
  induction pending with
  | nil => exact absurd rfl h
  | cons p pending ih =>
    cases pending with
    | nil => exact ⟨p, by simp, rfl⟩
    | cons q pending =>
      obtain ⟨m, hm, _⟩ := ih (by simp)
      have hmin : minRev (p :: q :: pending) =
          min p.1 (minRev (q :: pending)) := rfl
      rcases Nat.le_total p.1 (minRev (q :: pending)) with hle | hle
      · exact ⟨p, by simp, by rw [hmin]; omega⟩
      · exact ⟨m, by simp [hm], by rw [hmin]; omega⟩

/-- What the watermark is at least: everything below is done. -/
theorem le_indexed (hhigh : n ≤ w.observedHigh) (hpending : ∀ p ∈ w.pending, n < p.1) :
    n ≤ w.indexed := by
  unfold indexed indexedOf
  split
  · exact hhigh
  next hne =>
  obtain ⟨p, hp, _⟩ := exists_minRev hne
  have hlt := hpending p hp
  omega

/-! ## The covered revision -/

/-- **The covered revision stays or moves up** to the newest delivered one, or to one of
those drained, and never past `n`. -/
def CoveredMoves (w w' : Watermark κ) (n : ℕ) (drained : List (ℕ × Inflight κ)) : Prop :=
  w'.coveredRev = w.coveredRev ∧ w'.coveredAt = w.coveredAt ∨
    w.coveredRev < w'.coveredRev ∧ w'.coveredRev ≤ n ∧
      (w'.coveredRev = w.observedHigh ∧ w'.coveredAt = w.observedHighAt ∨
        ∃ p ∈ drained, w'.coveredRev = p.1 ∧ w'.coveredAt = p.2.commitAt)

theorem CoveredMoves.mono {drained drained' : List (ℕ × Inflight κ)}
    (h : CoveredMoves w w' n drained) (hsub : drained ⊆ drained') :
    CoveredMoves w w' n drained' := by
  refine h.imp id fun ⟨hlt, hle, hsource⟩ => ⟨hlt, hle, hsource.imp id ?_⟩
  rintro ⟨p, hp, heq⟩
  exact ⟨p, hsub hp, heq⟩

theorem advanceCovered_spec (w : Watermark κ) (drained : List (ℕ × Inflight κ)) :
    CoveredMoves w (w.advanceCovered drained) w.indexed drained := by
  unfold advanceCovered
  split
  · next hempty =>
    split
    · next hlt =>
      refine .inr ⟨hlt, ?_, .inl ⟨rfl, rfl⟩⟩
      exact Nat.le_of_eq (if_pos hempty).symm
    · exact .inl ⟨rfl, rfl⟩
  · clear * -
    -- on the drained revisions; the watermark itself is not moved on the way
    induction drained generalizing w with
    | nil => exact .inl ⟨rfl, rfl⟩
    | cons p drained ih =>
      rw [foldl_cons]
      split
      · next hp =>
        have hrest := ih { w with coveredRev := p.1, coveredAt := p.2.commitAt }
        rcases hrest.mono (subset_cons_self p drained) with ⟨hrev, htime⟩ | ⟨hlt, hle, hsource⟩
        · rw [CoveredMoves, hrev, htime]
          exact .inr ⟨hp.2, hp.1, .inr ⟨p, mem_cons_self, rfl, rfl⟩⟩
        · exact .inr ⟨Nat.lt_trans hp.2 hlt, hle, hsource⟩
      · exact (ih w).mono (subset_cons_self p drained)

/-! ## Runs -/

namespace Delivery

/-- What the proofs go by, beside what is said to the outside. -/
structure Tracks (s : Delivery κ) : Prop where
  high : s.mark.observedHigh = s.newest
  highAt : s.mark.observedHigh ≠ 0 → (s.mark.observedHigh, s.mark.observedHighAt) ∈ s.delivered
  inflight : ∀ p ∈ s.mark.pending, (p.1, p.2.commitAt) ∈ s.delivered
  outstanding : ∀ q, q ∈ s.outstanding ↔ ∃ p ∈ s.mark.pending, (p.1, p.2.key) = q
  covered : s.mark.coveredRev = 0 ∧ s.mark.coveredAt = 0 ∨
    (s.mark.coveredRev, s.mark.coveredAt) ∈ s.delivered
  coveredLe : s.mark.coveredRev ≤ s.mark.indexed

variable {s s' : Delivery κ}

theorem Tracks.sound (h : s.Tracks) : s.Sound where
  done := by
    intro q hq
    obtain ⟨p, hp, rfl⟩ := (h.outstanding q).1 hq
    exact lt_of_mem_pending hp
  caughtUp := by
    intro hempty
    have hpending : s.mark.pending = [] := by
      refine eq_nil_iff_forall_not_mem.2 fun p hp => ?_
      have := (h.outstanding _).2 ⟨p, hp, rfl⟩
      rw [hempty] at this
      cases this
    rw [← h.high, indexed, indexedOf, if_pos hpending]
  covered := h.covered.imp id fun hmem => ⟨hmem, h.coveredLe⟩

theorem tracks_start : (start : Delivery κ).Tracks where
  high := rfl
  highAt := fun hne => absurd rfl hne
  inflight := nofun
  outstanding := by simp [start, Watermark.new]
  covered := .inl ⟨rfl, rfl⟩
  coveredLe := Nat.le_refl 0

theorem Advances.refl (s : Delivery κ) : s.Advances s :=
  ⟨Nat.le_refl _, .inl ⟨rfl, rfl⟩⟩

theorem Advances.trans (h : s.Advances s') (h' : s'.Advances s'') :
    s.Advances s'' := by
  refine ⟨Nat.le_trans h.indexed h'.indexed, ?_⟩
  rcases h.covered with ⟨hrev, htime⟩ | _
  · rw [hrev, htime]
    exact h'.covered
  · rcases h'.covered with ⟨hrev, -⟩ | _ <;> omega

/-- A new revision is delivered. -/
theorem Tracks.observe (h : s.Tracks) (hr : s.newest < r) :
    let s' : Delivery κ := ⟨s.mark.observe r key commitAt, s.delivered ++ [(r, commitAt)],
      s.outstanding ++ [(r, key)]⟩
    s'.Tracks ∧ s.Advances s' := by
  have hne : r ≠ 0 := by omega
  have hhigh := observe_observedHigh s.mark hne key commitAt
  have hlt : s.mark.observedHigh < r := by
    rw [h.high]
    exact hr
  have hkept : (s.mark.observe r key commitAt).coveredRev = s.mark.coveredRev ∧
      (s.mark.observe r key commitAt).coveredAt = s.mark.coveredAt ∧
      (s.mark.observe r key commitAt).observedHighAt = commitAt := by
    rw [Watermark.observe, dif_neg hne]
    exact ⟨rfl, rfl, if_pos hlt⟩
  have hindexed : s.mark.indexed ≤ (s.mark.observe r key commitAt).indexed := by
    have hle := indexed_le_observedHigh s.mark
    refine le_indexed (by omega) ?_
    intro p hp
    rcases (mem_pending_observe s.mark hne key commitAt).1 hp with ⟨hp, -⟩ | rfl
    · exact lt_of_mem_pending hp
    · exact Nat.lt_of_le_of_lt hle hlt
  have hmax : (s.mark.observe r key commitAt).observedHigh = r := by omega
  refine ⟨⟨?_, ?_, ?_, ?_, ?_, ?_⟩, hindexed, .inl ⟨hkept.1.symm, hkept.2.1.symm⟩⟩
  · simp [newest, hmax]
  · rw [hmax, hkept.2.2]
    simp
  · intro p hp
    rcases (mem_pending_observe s.mark hne key commitAt).1 hp with ⟨hp, -⟩ | rfl
    · exact mem_append_left _ (h.inflight p hp)
    · simp
  · intro q
    simp only [mem_append, mem_singleton, h.outstanding q, mem_pending_observe s.mark hne]
    constructor
    · rintro (⟨p, hp, rfl⟩ | rfl)
      · have := s.mark.pending_le p hp
        exact ⟨p, .inl ⟨hp, by omega⟩, rfl⟩
      · exact ⟨_, .inr rfl, rfl⟩
    · rintro ⟨p, ⟨hp, -⟩ | rfl, rfl⟩
      · exact .inl ⟨p, hp, rfl⟩
      · exact .inr rfl
  · rw [hkept.1, hkept.2.1]
    exact h.covered.imp id (mem_append_left _)
  · exact hkept.1.symm ▸ Nat.le_trans h.coveredLe hindexed

variable [DecidableEq κ]

theorem complete_covered (w : Watermark κ) (key : κ) (rev : ℕ) :
    CoveredMoves w (w.complete key rev) (w.complete key rev).indexed w.pending := by
  have hindexed : (w.complete key rev).indexed =
      indexedOf w.observedHigh (w.pending.filter fun p => !drains key rev p) := by
    rw [indexed, complete_pending, complete_observedHigh]
  rw [hindexed]
  unfold complete
  dsimp only
  split
  · exact .inl ⟨rfl, rfl⟩
  · exact (advanceCovered_spec _ (w.pending.filter (drains key rev))).mono
      filter_sublist.subset

/-- Some work is over. -/
theorem Tracks.complete (h : s.Tracks) (key : κ) (rev : ℕ) :
    let s' : Delivery κ := { s with
      mark := s.mark.complete key rev
      outstanding := s.outstanding.filter fun p => ¬(p.2 = key ∧ p.1 ≤ rev) }
    s'.Tracks ∧ s.Advances s' := by
  have hpending := complete_pending s.mark key rev
  have hhigh := complete_observedHigh s.mark key rev
  have hindexed : s.mark.indexed ≤ (s.mark.complete key rev).indexed := by
    refine le_indexed (hhigh ▸ indexed_le_observedHigh s.mark) ?_
    intro p hp
    rw [hpending] at hp
    exact lt_of_mem_pending (mem_of_mem_filter hp)
  have hkept : ∀ p ∈ (s.mark.complete key rev).pending, (p.1, p.2.commitAt) ∈ s.delivered := by
    intro p hp
    rw [hpending] at hp
    exact h.inflight p (mem_of_mem_filter hp)
  have hopen : ∀ q, q ∈ (s.outstanding.filter fun p => ¬(p.2 = key ∧ p.1 ≤ rev)) ↔
      ∃ p ∈ (s.mark.complete key rev).pending, (p.1, p.2.key) = q := by
    intro q
    simp only [hpending, mem_filter, h.outstanding q, drains, decide_eq_true_eq, Bool.not_eq_true',
      Bool.and_eq_false_iff, decide_eq_false_iff_not, not_and_or]
    constructor
    · rintro ⟨⟨p, hp, rfl⟩, hkeep⟩
      exact ⟨p, ⟨hp, hkeep⟩, rfl⟩
    · rintro ⟨p, ⟨hp, hkeep⟩, rfl⟩
      exact ⟨⟨p, hp, rfl⟩, hkeep⟩
  have hnewest : (s.mark.complete key rev).observedHigh ≠ 0 →
      ((s.mark.complete key rev).observedHigh, (s.mark.complete key rev).observedHighAt) ∈
        s.delivered := by
    rw [hhigh, complete_observedHighAt]
    exact h.highAt
  rcases complete_covered s.mark key rev with ⟨hrev, htime⟩ | ⟨hlt, hle, hsource⟩
  · refine ⟨⟨hhigh.trans h.high, hnewest, hkept, hopen, ?_, ?_⟩, hindexed, .inl ⟨hrev.symm, htime.symm⟩⟩
    · rw [hrev, htime]
      exact h.covered
    · exact hrev.symm ▸ Nat.le_trans h.coveredLe hindexed
  · refine ⟨⟨hhigh.trans h.high, hnewest, hkept, hopen, .inr ?_, hle⟩, hindexed, .inr hlt⟩
    rcases hsource with ⟨hrev, htime⟩ | ⟨p, hp, hrev, htime⟩ <;> rw [hrev, htime]
    · exact h.highAt (by omega)
    · exact h.inflight p hp

/-- **One call keeps the account and never takes the watermark back.** -/
theorem Tracks.step (h : s.Tracks) (hstep : s.step e = some s') :
    s'.Tracks ∧ s.Advances s' := by
  cases e with
  | observe r key commitAt =>
    obtain ⟨hr, ⟨⟩⟩ := ite_none_right_eq_some.1 hstep
    by_cases hzero : r = 0
    · have hsame : s.mark.observe r key commitAt = s.mark := by
        rw [Watermark.observe, dif_pos hzero]
      rw [hsame, if_pos hzero, if_pos hzero]
      exact ⟨h, Advances.refl s⟩
    · rw [if_neg hzero, if_neg hzero]
      exact h.observe (hr.resolve_right hzero)
  | complete key rev =>
    simp only [Delivery.step, Option.some.injEq] at hstep
    rw [← hstep]
    exact h.complete key rev

/-- From an account that is kept, the watermark only advances. -/
theorem Tracks.run (h : s.Tracks) (hrun : SemStreams.run Delivery.step s es = some s') :
    s'.Tracks ∧ s.Advances s' := by
  induction es generalizing s with
  | nil =>
    rw [run_nil, Option.some.injEq] at hrun
    rw [← hrun]
    exact ⟨h, Advances.refl s⟩
  | cons e es ih =>
    obtain ⟨m, hstep, hrest⟩ := run_cons_eq_some.1 hrun
    obtain ⟨hm, hadvance⟩ := h.step hstep
    obtain ⟨hs', hadvance'⟩ := ih hm hrest
    exact ⟨hs', hadvance.trans hadvance'⟩

/-- **The watermark is sound** in every state reached, whatever the order of the
completions, and no later state takes it back. -/
theorem watermark_sound {es : List (Event κ)} (hrun : SemStreams.run step start es = some s) :
    s.Sound ∧ ∀ es' s', SemStreams.run step s es' = some s' → s.Advances s' := by
  have htracks := (tracks_start.run hrun).1
  refine ⟨htracks.sound, ?_⟩
  intro es' s' hrest
  exact (htracks.run hrest).2

end Delivery

/-- Two keys, the newer revision over first: the watermark waits for the older one. -/
def twoKeys : List (Delivery.Event Bool) :=
  [.observe 3 true 30, .observe 5 false 50, .complete false 5]

theorem watermark_sound_twoKeys : ∃ s s', run Delivery.step Delivery.start twoKeys = some s ∧
    s.mark.indexed = 2 ∧ s.Sound ∧ s'.mark.indexed = 5 ∧ s'.mark.coveredAt = 50 ∧
    s.Advances s' := by
  obtain ⟨s, hrun, hs⟩ : ∃ s, run Delivery.step Delivery.start twoKeys = some s ∧
      s.mark.indexed = 2 := by decide +kernel
  obtain ⟨s', hrun', hindexed, hcovered⟩ : ∃ s', run Delivery.step Delivery.start
      (twoKeys ++ [.complete true 3]) = some s' ∧ s'.mark.indexed = 5 ∧ s'.mark.coveredAt = 50 := by
    decide +kernel
  rw [run_append, hrun] at hrun'
  have hsound := Delivery.watermark_sound hrun
  exact ⟨s, s', hrun, hs, hsound.1, hindexed, hcovered, hsound.2 _ _ hrun'⟩

end SemStreams.Revlag
