import SemStreams.Lib.Slots
import SemStreams.Rule.EvaluationFence
import SemStreams.Lib.Run
/-!
# Rules — feedback-loop suppression under coalescing

A rule's own write is recorded under its revision, and when that revision is
evaluated the rule is skipped once. Watch updates are coalesced: a batch fetches
the entity's current state, whatever revisions it stands for. The skip looks
only at the revision fetched, so an own write on top of another writer's change
takes that change with it.

One entity is modelled with the rules that are enabled and match it. The log is
the entity's revisions with their writers; a watcher delivers revisions in
order, not necessarily each of them. A batch's fetch and the fence's admission of
what it read are one step. `evaluated` is a history no code reads.
-/

namespace SemStreams.Rule

open SemStreams.Graph List Function Option

/-! ## The entity and its revisions -/

/-- One revision: the rule whose action wrote it, `none` for any other writer,
and the state it wrote, `none` for a deletion. -/
structure Write where
  writer : Option String
  state : Option EntityState

/-- The snapshot a watcher delivers for a revision. -/
def Write.snapshot (w : Write) (revision : ℕ) : EntitySnapshot where
  state := w.state
  action := if w.state.isNone then .deleted else if revision = 1 then .created else .updated
  revision := revision

/-- `fetchCurrentEntityState`: a missing key is a deletion without a revision. -/
def fetchCurrentEntityState (log : List Write) : EntitySnapshot :=
  match log.getLast? with
  | some ⟨_, some state⟩ => Write.snapshot ⟨none, some state⟩ log.length
  | _ => { state := none, action := .deleted, revision := 0 }

/-- `trackRuleRevision`, on the revisions recorded for the entity. -/
def trackRuleRevision (own : List (String × ℕ)) (ruleID : String) (revision : ℕ) :
    List (String × ℕ) :=
  if ruleID = "" ∨ revision = 0 then own else (ruleID, revision) :: own

local instance lawfulOwn : LawfulBEq (String × ℕ) := inferInstance

/-- `shouldSkipRule`: the verdict, and the recorded revisions after it. -/
def shouldSkipRule (own : List (String × ℕ)) (ruleID : String) (revision : ℕ) :
    Bool × List (String × ℕ) :=
  if ruleID = "" ∨ revision = 0 then (false, own)
  else if (ruleID, revision) ∈ own then (true, own.filter (· ≠ (ruleID, revision)))
  else (false, own)

/-! ## Watching, coalescing, evaluating -/

/-- Work in progress: a batch before its fetch, or an admitted snapshot with the
rules still to visit. `asOf` is the newest revision the snapshot reflects. -/
inductive Visit
  | fetching
  | evaluating (snap : EntitySnapshot) (asOf : ℕ) (rules : List String)

structure Watched (W : Type) where
  log : List Write
  own : List (String × ℕ)
  position : W → ℕ
  pending : Bool
  fence : FenceEntry
  calls : ℕ → Option Visit
  evaluated : List (String × ℕ)

open Watched

inductive WatchEvent (W : Type)
  | write (w : Write)
  | track (ruleID : String) (revision : ℕ)
  | prune (keep : String × ℕ → Bool)
  | deliver (w : W) (revision : ℕ) (n : ℕ) (direct : Bool)
  | rewatch (w : W)
  | fire (n : ℕ)
  | fetch (n : ℕ) (ok : Bool)
  | visit (n : ℕ) (ruleID : String)
  | finish (n : ℕ)
  | evict

def Watched.init (W : Type) : Watched W where
  log := []
  own := []
  position := fun _ => 0
  pending := false
  fence := {}
  calls := fun _ => none
  evaluated := []

section Step

variable {W : Type} [DecidableEq W]

/-- `admitEntitySnapshot`, and the call it lets through. -/
def Watched.admitSnapshot (s : Watched W) (rules : List String) (n : ℕ) (snap : EntitySnapshot) (asOf : ℕ) :
    Watched W :=
  if s.fence.admits snap then
    { s with
      fence := (s.fence.record snap).retain
      calls := update s.calls n (some (.evaluating snap asOf rules)) }
  else { s with calls := update s.calls n none }

/-- A turn of the loop of `evaluateRulesForEntityState`: the rule is skipped or
evaluated. -/
def Watched.visit (s : Watched W) (n : ℕ) (ruleID : String) (snap : EntitySnapshot) (asOf : ℕ)
    (rest : List String) : Watched W :=
  let (skip, own) := shouldSkipRule s.own ruleID snap.revision
  { s with
    own := own
    evaluated := if skip then s.evaluated else s.evaluated ++ [(ruleID, asOf)]
    calls := update s.calls n (some (.evaluating snap asOf (rest.erase ruleID))) }

/-- The entity under the rules `rules`. A delivery is `direct` where there is no
coalescer or the watcher replays. -/
def watchStep (rules : List String) (s : Watched W) : WatchEvent W → Option (Watched W)
  | .write w => some { s with log := s.log ++ [w] }
  | .track ruleID revision =>
    if (s.log[revision - 1]?).any (fun w => w.writer = some ruleID) then
      some { s with own := trackRuleRevision s.own ruleID revision }
    else none
  | .prune keep => some { s with own := s.own.filter keep }
  | .deliver w revision n direct =>
    match s.log[revision - 1]?, s.calls n with
    | some wr, none =>
      if s.position w < revision then
        let snap := wr.snapshot revision
        let s₁ := { s with position := update s.position w revision }
        if snap.action = .deleted then
          -- an admitted deletion takes the pending work of the entity with it
          some
            { s₁.admitSnapshot rules n snap revision with
              pending := s.pending && !s.fence.admits snap }
        else if direct then some (s₁.admitSnapshot rules n snap revision)
        else some { s₁ with pending := true }
      else none
    | _, _ => none
  | .rewatch w => some { s with position := update s.position w 0 }
  | .fire n =>
    match s.calls n with
    | none =>
      if s.pending then
        some { s with pending := false, calls := update s.calls n (some .fetching) }
      else none
    | some _ => none
  | .fetch n ok =>
    match s.calls n with
    | some .fetching =>
      if ok then some (s.admitSnapshot rules n (fetchCurrentEntityState s.log) s.log.length)
      else some { s with calls := update s.calls n none }
    | _ => none
  | .visit n ruleID =>
    match s.calls n with
    | some (.evaluating snap asOf rest) =>
      if ruleID ∈ rest then some (s.visit n ruleID snap asOf rest) else none
    | _ => none
  | .finish n =>
    match s.calls n with
    | some (.evaluating _ _ []) =>
      some { s with calls := update s.calls n none, fence := s.fence.release }
    | _ => none
  | .evict => if s.fence.refs = 0 then some { s with fence := {} } else none

end Step

/-! ## What is owed to a rule -/

/-- The revision is in the log and another writer than the rule wrote it. -/
def ByOther (log : List Write) (ruleID : String) (n : ℕ) : Prop :=
  0 < n ∧ ∃ w, log[n - 1]? = some w ∧ w.writer ≠ some ruleID

section Owed

variable {W : Type}

/-- The rule was evaluated on a state at least as new as the revision. -/
def Watched.Evaluated (s : Watched W) (ruleID : String) (n : ℕ) : Prop :=
  ∃ m, n ≤ m ∧ (ruleID, m) ∈ s.evaluated

/-- An admitted snapshot at least as new as the revision has yet to visit the
rule, in a call that `P` holds of. -/
def Watched.Due (s : Watched W) (P : ℕ → Prop) (ruleID : String) (n : ℕ) : Prop :=
  ∃ k snap asOf rest, P k ∧ s.calls k = some (.evaluating snap asOf rest) ∧ ruleID ∈ rest ∧ n ≤ asOf

def Watched.Covered (s : Watched W) (ruleID : String) (n : ℕ) : Prop :=
  s.Evaluated ruleID n ∨ s.Due (fun _ => True) ruleID n

/-- Every watcher has delivered the latest revision. -/
def Watched.CaughtUp (s : Watched W) : Prop := ∀ w, s.position w = s.log.length

/-- Nothing is left to do. -/
def Watched.Quiet (s : Watched W) : Prop :=
  s.CaughtUp ∧ s.pending = false ∧ ∀ n, s.calls n = none

/-- A rule is skipped on its own revision only where it has been evaluated on
everything others wrote before it, or another call is about to; and no fetch
fails. -/
def Heeds (s : Watched W) : WatchEvent W → Prop
  | .visit k ruleID => ∀ snap asOf rest, s.calls k = some (.evaluating snap asOf rest) →
      (shouldSkipRule s.own ruleID snap.revision).1 = true →
      ∀ n < snap.revision, ByOther s.log ruleID n →
        s.Evaluated ruleID n ∨ s.Due (· ≠ k) ruleID n
  | .fetch _ ok => ok = true
  | _ => True

end Owed

/-! ## The invariant -/

/-- Everything others wrote up to revision `b` is covered. -/
def Watched.CoveredUpTo {W : Type} (rules : List String) (s : Watched W) (b : ℕ) : Prop :=
  ∀ r ∈ rules, ∀ n ≤ b, ByOther s.log r n → s.Covered r n

structure Watched.Base {W : Type} (rules : List String) (s : Watched W) : Prop where
  own : ∀ r m, (r, m) ∈ s.own → ∃ w, s.log[m - 1]? = some w ∧ w.writer = some r
  position : ∀ w, s.position w ≤ s.log.length
  latest : s.fence.latestRevision ≤ s.log.length
  asOf : ∀ k v, s.calls k = some v → ∀ snap asOf rest, v = .evaluating snap asOf rest →
    0 < snap.revision → asOf = snap.revision
  admitted : s.CoveredUpTo rules s.fence.latestRevision

/-- Once every watcher has caught up, what is not covered is pending or about to
be fetched; a deletion is never only pending, since a fetch may be refused. -/
structure Watched.Sound {W : Type} (rules : List String) (s : Watched W) : Prop
    extends s.Base rules where
  caughtUp : s.CaughtUp → s.pending = true ∨ (∃ k, s.calls k = some .fetching) ∨
    s.CoveredUpTo rules s.log.length
  deleted : s.CaughtUp → (s.log.getLast?).any (·.state.isNone) = true →
    s.CoveredUpTo rules s.log.length

variable {W : Type} {rules : List String} {s s' : Watched W} {r : String} {n b : ℕ}
  {log : List Write}

theorem byOther_append (h : ByOther (log ++ [w]) r n) (hn : n ≤ log.length) :
    ByOther log r n := by
  obtain ⟨hpos, w', hw', hne⟩ := h
  rw [List.getElem?_append_left (by omega)] at hw'
  exact ⟨hpos, w', hw', hne⟩

theorem ByOther.le (h : ByOther log r n) : n ≤ log.length := by
  obtain ⟨_, w, hw, -⟩ := h
  have := (List.getElem?_eq_some_iff.1 hw).1
  omega

/-- Covering survives where evaluations are kept and the rule stays with a call
at least as new. -/
theorem Watched.Covered.mono (h : s.Covered r n) (heval : s.evaluated ⊆ s'.evaluated)
    (hcalls : ∀ k snap asOf rest, s.calls k = some (.evaluating snap asOf rest) → r ∈ rest →
      n ≤ asOf → s'.Covered r n) : s'.Covered r n := by
  rcases h with ⟨m, hm, hmem⟩ | ⟨k, snap, asOf, rest, -, hk, hr, hle⟩
  · exact .inl ⟨m, hm, heval hmem⟩
  · exact hcalls k snap asOf rest hk hr hle

variable {k asOf : ℕ} {rest : List String} {snap : EntitySnapshot}

/-- A call the step does not touch goes on covering. -/
theorem Watched.covered_of_call (hk : s.calls k = some (.evaluating snap asOf rest)) (hr : r ∈ rest)
    (hle : n ≤ asOf) : s.Covered r n :=
  .inr ⟨k, snap, asOf, rest, trivial, hk, hr, hle⟩

variable {v : Option Visit}

/-- The frame: the log and the evaluations stay, and one slot that covers
nothing is rewritten. -/
theorem Watched.CoveredUpTo.frame (h : s.CoveredUpTo rules b) (hlog : s'.log = s.log)
    (heval : s.evaluated ⊆ s'.evaluated) (hcalls : s'.calls = update s.calls k v)
    (hk : ∀ snap asOf rest, s.calls k = some (.evaluating snap asOf rest) → rest = []) :
    s'.CoveredUpTo rules b := by
  intro r hr n hn hby
  rw [hlog] at hby
  refine (h r hr n hn hby).mono heval fun j snap asOf rest hj hrest hle => ?_
  have hjk : j ≠ k := by
    rintro rfl
    rw [hk snap asOf rest hj] at hrest
    cases hrest
  have hj' : s'.calls j = some (.evaluating snap asOf rest) := by
    rw [hcalls, update_of_ne hjk]
    exact hj
  exact covered_of_call hj' hrest hle

/-- A call over all rules covers what its snapshot reflects. -/
theorem Watched.coveredUpTo_of_call (hk : s.calls k = some (.evaluating snap b rules)) :
    s.CoveredUpTo rules b :=
  fun _ hr _ hn _ => covered_of_call hk hr hn

theorem Watched.CoveredUpTo.le (h : s.CoveredUpTo rules b) (hb : b' ≤ b) :
    s.CoveredUpTo rules b' :=
  fun r hr n hn => h r hr n (hn.trans hb)

theorem Watched.Sound.of_covered (h : s.Base rules)
    (hcov : s.CaughtUp → s.CoveredUpTo rules s.log.length) : s.Sound rules :=
  ⟨h, fun hc => .inr (.inr (hcov hc)), fun hc _ => hcov hc⟩

theorem admit_eq (s : Watched W) (rules : List String) (k : ℕ) (snap : EntitySnapshot) (asOf : ℕ) :
    s.fence.admits snap ∧ s.admitSnapshot rules k snap asOf =
        { s with
          fence := (s.fence.record snap).retain
          calls := update s.calls k (some (.evaluating snap asOf rules)) } ∨
      s.fence.admits snap = false ∧ s.admitSnapshot rules k snap asOf =
        { s with calls := update s.calls k none } := by
  unfold admitSnapshot
  cases h : s.fence.admits snap with
  | true => exact .inl ⟨rfl, rfl⟩
  | false => exact .inr ⟨rfl, rfl⟩

theorem le_latest_record (e : FenceEntry) (snap : EntitySnapshot) :
    (e.record snap).retain.latestRevision = max e.latestRevision snap.revision := by
  simp only [FenceEntry.retain, FenceEntry.record]
  split <;> omega

/-- **An admission.** The base of the invariant is kept, and what the snapshot's
revision reflects is covered: by its own call, or because as much is admitted
already. -/
theorem Watched.Base.admitSnapshot (hs : s.Base rules)
    (hk : ∀ snap asOf rest, s.calls k ≠ some (.evaluating snap asOf rest))
    (hasOf : 0 < snap.revision → asOf = snap.revision) (hle : snap.revision ≤ s.log.length) :
    (s.admitSnapshot rules k snap asOf).Base rules ∧
      (s.admitSnapshot rules k snap asOf).CoveredUpTo rules snap.revision := by
  have hfree : ∀ snap asOf rest, s.calls k = some (.evaluating snap asOf rest) → rest = [] :=
    fun snap asOf rest h => absurd h (hk snap asOf rest)
  rcases admit_eq s rules k snap asOf with ⟨hadm, heq⟩ | ⟨hadm, heq⟩ <;> rw [heq]
  · have hrev : CoveredUpTo rules
        { s with
          fence := (s.fence.record snap).retain
          calls := update s.calls k (some (.evaluating snap asOf rules)) }
        snap.revision := by
      refine (coveredUpTo_of_call (update_self k _ s.calls)).le ?_
      by_cases hpos : 0 < snap.revision
      · exact (hasOf hpos).ge
      · omega
    have hadmitted : CoveredUpTo rules
        { s with
          fence := (s.fence.record snap).retain
          calls := update s.calls k (some (.evaluating snap asOf rules)) }
        s.fence.latestRevision :=
      hs.admitted.frame rfl (List.Subset.refl _) rfl hfree
    refine ⟨⟨hs.own, hs.position, ?_, ?_, ?_⟩, hrev⟩
    · rw [le_latest_record]
      exact max_le hs.latest hle
    · refine forall_slot_fill ?_ hs.asOf
      rintro _ _ _ ⟨⟩
      exact hasOf
    · rw [le_latest_record]
      intro r hr n _ hby
      by_cases hold : n ≤ s.fence.latestRevision
      · exact hadmitted r hr n hold hby
      · exact hrev r hr n (by omega) hby
  · have hadmitted : CoveredUpTo rules
        { s with calls := update s.calls k none } s.fence.latestRevision :=
      hs.admitted.frame rfl (List.Subset.refl _) rfl hfree
    refine ⟨⟨hs.own, hs.position, hs.latest, forall_slot_free hs.asOf, hadmitted⟩, hadmitted.le ?_⟩
    by_cases hpos : 0 < snap.revision
    · rw [FenceEntry.admits, if_pos hpos] at hadm
      have := of_decide_eq_false hadm
      omega
    · omega

theorem Watched.Base.move [DecidableEq W] (hs : s.Base rules) (hn : n ≤ s.log.length) :
    Base rules { s with position := update s.position w n } := by
  refine { hs with position := ?_ }
  exact (forall_update_iff s.position fun _ n => n ≤ s.log.length).2 ⟨hn, fun v _ => hs.position v⟩

variable {pending : Bool}

/-- A delivery handed on at once, admitted or not. -/
theorem Watched.Sound.deliver [DecidableEq W] (hs : s.Sound rules)
    (hw : s.log[n - 1]? = some wr) (hk : s.calls k = none) :
    Sound rules
      { { s with position := update s.position w n }.admitSnapshot rules k (wr.snapshot n) n with
        pending := pending } := by
  have hlen := (List.getElem?_eq_some_iff.1 hw).1
  have hle : n ≤ s.log.length := by omega
  obtain ⟨hbase', hcov⟩ := @Base.admitSnapshot _ _ _ k n (wr.snapshot n) (hs.toBase.move hle)
    (fun _ _ _ h => by rw [show s.calls k = none from hk] at h; cases h) (fun _ => rfl) hle
  have hlog : ({ s with position := update s.position w n }.admitSnapshot rules k
      (wr.snapshot n) n).log = s.log := by
    unfold admitSnapshot
    split <;> rfl
  have hpos : ({ s with position := update s.position w n }.admitSnapshot rules k
      (wr.snapshot n) n).position w = n := by
    unfold admitSnapshot
    split <;> exact update_self _ _ _
  refine .of_covered { hbase' with } ?_
  intro hc
  have hlast : n = s.log.length := hpos.symm.trans ((hc w).trans (congrArg _ hlog))
  refine fun r hr m hm hby => hcov r hr m ?_ hby
  exact hm.trans_eq ((congrArg _ hlog).trans hlast.symm)

theorem Watched.Sound.fetch (hs : s.Sound rules) (hk : s.calls k = some .fetching) :
    (s.admitSnapshot rules k (fetchCurrentEntityState s.log) s.log.length).Sound rules := by
  have hfree : ∀ snap asOf rest, s.calls k ≠ some (.evaluating snap asOf rest) := by
    intro snap asOf rest h
    rw [hk] at h
    cases h
  obtain ⟨hrev, hle⟩ : (0 < (fetchCurrentEntityState s.log).revision →
      s.log.length = (fetchCurrentEntityState s.log).revision) ∧
      (fetchCurrentEntityState s.log).revision ≤ s.log.length := by
    unfold fetchCurrentEntityState
    split
    · exact ⟨fun _ => rfl, Nat.le_refl _⟩
    · exact ⟨fun h => absurd h (lt_irrefl 0), Nat.zero_le _⟩
  obtain ⟨hbase, hcov⟩ := hs.toBase.admitSnapshot hfree hrev hle
  refine .of_covered hbase fun hc => ?_
  rcases admit_eq s rules k (fetchCurrentEntityState s.log) s.log.length with
    ⟨-, heq⟩ | ⟨hadm, heq⟩
  · rw [heq]
    exact coveredUpTo_of_call (update_self k _ s.calls)
  · rw [heq] at hc ⊢
    -- a refused deletion: the watchers have all delivered it
    have hkeep : ∀ b, s.CoveredUpTo rules b →
        CoveredUpTo rules { s with calls := update s.calls k none } b :=
      fun b h => h.frame rfl (List.Subset.refl _) rfl
        fun snap asOf rest h => absurd h (hfree snap asOf rest)
    by_cases hpos : 0 < (fetchCurrentEntityState s.log).revision
    · rw [← hrev hpos, heq] at hcov
      exact hcov
    · refine hkeep _ ?_
      cases hlast : s.log.getLast? with
      | none =>
        intro r _ n _ hby
        rw [List.getLast?_eq_none_iff.1 hlast] at hby
        obtain ⟨-, w, hw, -⟩ := hby
        cases hw
      | some w =>
        refine hs.deleted hc ?_
        rw [hlast]
        cases hstate : w.state with
        | none => simp [hstate]
        | some state =>
          refine absurd ?_ hpos
          have hne : s.log ≠ [] := by
            intro hnil
            rw [hnil] at hlast
            cases hlast
          obtain ⟨_, _⟩ := w
          cases hstate
          rw [fetchCurrentEntityState, hlast]
          exact length_pos_iff.2 hne

theorem shouldSkipRule_subset (own : List (String × ℕ)) (r : String) (n : ℕ) :
    (shouldSkipRule own r n).2 ⊆ own := by
  unfold shouldSkipRule
  split
  · exact List.Subset.refl _
  · split
    · exact filter_sublist.subset
    · exact List.Subset.refl _

theorem mem_of_shouldSkipRule {own : List (String × ℕ)}
    (h : (shouldSkipRule own r n).1) : 0 < n ∧ (r, n) ∈ own := by
  unfold shouldSkipRule at h
  split at h
  · cases h
  next _ =>
  split at h
  · next hmem => exact ⟨by omega, hmem⟩
  · cases h

theorem evaluated_visit : (s.visit k r snap asOf rest).evaluated =
      if (shouldSkipRule s.own r snap.revision).1 then s.evaluated
      else s.evaluated ++ [(r, asOf)] := rfl

/-- **A visit keeps what is covered covered.** The rule is evaluated, or skipped
with nothing owed to it. -/
theorem Watched.CoveredUpTo.visit (h : s.CoveredUpTo rules b) (hs : s.Base rules)
    (hC : Heeds s (.visit k r)) (hk : s.calls k = some (.evaluating snap asOf rest)) :
    (s.visit k r snap asOf rest).CoveredUpTo rules b := by
  have heval : s.evaluated ⊆ (s.visit k r snap asOf rest).evaluated := by
    rw [evaluated_visit]
    split
    · exact List.Subset.refl _
    · exact subset_append_left _ _
  have hother : ∀ j, j ≠ k → (s.visit k r snap asOf rest).calls j = s.calls j :=
    fun j hj => update_of_ne hj _ _
  intro r' hr' n hn hby
  change ByOther s.log r' n at hby
  refine (h r' hr' n hn hby).mono heval fun j snap' asOf' rest' hj hrest hle => ?_
  by_cases hjk : j = k
  · subst hjk
    obtain ⟨rfl, rfl, rfl⟩ : snap = snap' ∧ asOf = asOf' ∧ rest = rest' := by
      rw [hk] at hj
      cases hj
      exact ⟨rfl, rfl, rfl⟩
    by_cases hrr : r' = r
    · subst hrr
      cases hskip : (shouldSkipRule s.own r' snap.revision).1 with
      | false =>
        refine .inl ⟨asOf, hle, ?_⟩
        rw [evaluated_visit, hskip]
        exact mem_append_right _ (mem_singleton_self _)
      | true =>
        obtain ⟨hpos, hmem⟩ := mem_of_shouldSkipRule hskip
        obtain ⟨w, hw, hwriter⟩ := hs.own _ _ hmem
        have hasOf := hs.asOf j _ hk snap asOf rest rfl hpos
        -- the skipped revision itself is the rule's own
        have hne : n ≠ snap.revision := by
          rintro rfl
          obtain ⟨-, _, hw', hnot⟩ := hby
          rw [hw] at hw'
          cases hw'
          exact hnot hwriter
        rcases hC snap asOf rest hk hskip n (by omega) hby with
          ⟨m, hm, hmem⟩ | ⟨i, snap', asOf', rest', hi, hcall, hr, hle'⟩
        · exact .inl ⟨m, hm, heval hmem⟩
        · exact covered_of_call ((hother i hi).trans hcall) hr hle'
    · exact covered_of_call (update_self j _ s.calls) ((mem_erase_of_ne hrr).2 hrest) hle
  · exact covered_of_call ((hother j hjk).trans hj) hrest hle

theorem Watched.Sound.visit (hs : s.Sound rules) (hC : Heeds s (.visit k r))
    (hk : s.calls k = some (.evaluating snap asOf rest)) :
    (s.visit k r snap asOf rest).Sound rules := by
  refine ⟨⟨?_, hs.position, hs.latest, ?_, hs.admitted.visit hs.toBase hC hk⟩, fun hc => ?_,
    fun hc hd => (hs.deleted hc hd).visit hs.toBase hC hk⟩
  · exact fun r' m hmem => hs.own r' m (shouldSkipRule_subset _ _ _ hmem)
  · refine forall_slot_fill ?_ hs.asOf
    rintro _ _ _ ⟨⟩
    exact hs.asOf k _ hk _ _ _ rfl
  · rcases hs.caughtUp hc with hp | ⟨j, hj⟩ | hcov
    · exact .inl hp
    · refine .inr (.inl ⟨j, ?_⟩)
      have hjk : j ≠ k := ne_of_apply_ne s.calls (by simp [hj, hk])
      exact (update_of_ne hjk _ _).trans hj
    · exact .inr (.inr (hcov.visit hs.toBase hC hk))

/-- A slot that covers nothing is rewritten, and nothing else but the fence's
count of references and the pending flag changes. -/
theorem Watched.Sound.slot {fence : FenceEntry} (hs : s.Sound rules)
    (hk : ∀ snap asOf rest, s.calls k = some (.evaluating snap asOf rest) → rest = [])
    (hv : ∀ snap asOf rest, v ≠ some (.evaluating snap asOf rest))
    (hfence : fence.latestRevision = s.fence.latestRevision)
    (hcaught : s.CaughtUp →
      s.pending ∨ (∃ k, s.calls k = some .fetching) ∨ s.CoveredUpTo rules s.log.length →
      pending ∨ (∃ j, update s.calls k v j = some .fetching) ∨
      s.CoveredUpTo rules s.log.length) :
    Sound rules
      { s with calls := update s.calls k v, fence := fence, pending := pending } := by
  have hkeep : ∀ b, s.CoveredUpTo rules b → CoveredUpTo rules
      { s with calls := update s.calls k v, fence := fence, pending := pending } b :=
    fun b h => h.frame rfl (List.Subset.refl _) rfl hk
  refine ⟨⟨hs.own, hs.position, hfence.trans_le hs.latest, ?_, ?_⟩, fun hc => ?_,
    fun hc hd => hkeep _ (hs.deleted hc hd)⟩
  · refine forall_slot_update (fun v' hv' snap asOf rest heq => ?_) hs.asOf
    exact absurd (hv'.trans (congrArg some heq)) (hv snap asOf rest)
  · rw [hfence]
    exact hkeep _ hs.admitted
  · exact (hcaught hc (hs.caughtUp hc)).imp_right (Or.imp_right (hkeep _))

variable [DecidableEq W] [Nonempty W]

/-- **A step that heeds other writers keeps the invariant.** -/
theorem Watched.Sound.step {e : WatchEvent W} (hs : s.Sound rules) (hC : Heeds s e)
    (h : watchStep rules s e = some s') : s'.Sound rules := by
  cases e with (simp only [watchStep] at h; (try split at h <;> try contradiction); try cases h)
  | write w =>
    refine .of_covered ⟨fun r m hmem => ?_, fun v => ?_, ?_, hs.asOf, ?_⟩ fun hc => ?_
    · obtain ⟨w', hw', hwriter⟩ := hs.own r m hmem
      refine ⟨w', ?_, hwriter⟩
      rw [List.getElem?_append_left (List.getElem?_eq_some_iff.1 hw').1]
      exact hw'
    · rw [length_append]
      exact (hs.position v).trans (Nat.le_add_right _ _)
    · rw [length_append]
      exact hs.latest.trans (Nat.le_add_right _ _)
    · exact fun r hr n hn hby => hs.admitted r hr n hn (byOther_append hby (hn.trans hs.latest))
    · -- no watcher has delivered the new revision
      obtain ⟨v⟩ := ‹Nonempty W›
      have hpos := hs.position v
      have hlen : s.position v = (s.log ++ [w]).length := hc v
      rw [length_append, length_singleton] at hlen
      omega
  | track ruleID revision =>
    rename_i hw
    refine ⟨{ hs with own := fun r m hmem => ?_ }, hs.caughtUp, hs.deleted⟩
    change (r, m) ∈ trackRuleRevision s.own ruleID revision at hmem
    unfold trackRuleRevision at hmem
    split at hmem
    · exact hs.own r m hmem
    rcases mem_cons.1 hmem with heq | hmem
    · cases heq
      obtain ⟨w, hw, hwriter⟩ := (Option.any_eq_true _ _).1 hw
      exact ⟨w, hw, of_decide_eq_true hwriter⟩
    · exact hs.own r m hmem
  | prune keep =>
    exact ⟨{ hs with own := fun r m hmem => hs.own r m (filter_sublist.subset hmem) }, hs.caughtUp,
      hs.deleted⟩
  | deliver w revision n direct =>
    rename_i _ hw hn
    obtain ⟨_, h⟩ := ite_none_right_eq_some.1 h
    split at h
    · cases h
      exact hs.deliver hw hn
    · next hlive =>
      split at h <;> cases h
      · exact hs.deliver hw hn
      have hlen := (List.getElem?_eq_some_iff.1 hw).1
      have hbase := hs.toBase.move (w := w) (n := revision) (by omega)
      refine ⟨{ hbase with }, fun _ => .inl rfl, fun hc hd => ?_⟩
      -- the latest revision is the one delivered, and it is no deletion
      have hlast : revision = s.log.length := (update_self w _ _).symm.trans (hc w)
      refine absurd ?_ hlive
      change (s.log.getLast?).any (·.state.isNone) at hd
      rw [List.getLast?_eq_getElem?, ← hlast, hw, any_some] at hd
      rw [Write.snapshot, if_pos hd]
  | rewatch w =>
    refine .of_covered (hs.toBase.move (Nat.zero_le _)) fun hc r hr n hn hby => ?_
    have hzero : 0 = s.log.length := (update_self w _ _).symm.trans (hc w)
    have hpos := hby.1
    change n ≤ s.log.length at hn
    omega
  | fire n =>
    rename_i hn
    obtain ⟨_, h⟩ := ite_none_right_eq_some.1 h
    cases h
    refine hs.slot (fun _ _ _ hk => ?_) nofun rfl fun _ _ => ?_
    · rw [hn] at hk
      cases hk
    · exact .inr (.inl ⟨n, update_self _ _ _⟩)
  | fetch n ok =>
    rename_i hn
    obtain rfl : ok := hC
    cases h
    exact hs.fetch hn
  | visit n ruleID =>
    rename_i hn
    obtain ⟨_, h⟩ := ite_none_right_eq_some.1 h
    cases h
    exact hs.visit hC hn
  | finish n =>
    rename_i hn
    refine hs.slot (fun _ _ _ hk => ?_) nofun rfl fun _ => ?_
    · rw [hn] at hk
      cases hk
      rfl
    · refine Or.imp_right (Or.imp_left ?_)
      rintro ⟨k, hk⟩
      have hkn : k ≠ n := ne_of_apply_ne s.calls (by simp [hk, hn])
      exact ⟨k, (update_of_ne hkn _ _).trans hk⟩
  | evict =>
    exact ⟨⟨hs.own, hs.position, Nat.zero_le _, hs.asOf,
      fun r hr n hn hby => absurd hby.1 (Nat.not_lt.2 hn)⟩, hs.caughtUp, hs.deleted⟩

/-- **No external change is dropped.** In a run that heeds other writers, once
nothing is left to do, every rule has been evaluated on a state at least as new
as each revision another writer wrote. -/
theorem external_changes_evaluated {es : List (WatchEvent W)}
    (hC : Along (watchStep rules) Heeds (init W) es)
    (h : run (watchStep rules) (init W) es = some s) (hquiet : s.Quiet)
    (hr : r ∈ rules) (hn : ByOther s.log r n) : ∃ m, n ≤ m ∧ (r, m) ∈ s.evaluated := by
  have hs : s.Sound rules := by
    refine run_invariant_along (I := Sound rules)
      (fun s e s' hs hC hstep => hs.step hC hstep) ?_ hC h
    refine .of_covered ⟨nofun, fun _ => Nat.le_refl 0, Nat.le_refl 0, nofun, ?_⟩ fun _ => ?_ <;>
      exact fun r _ n hn hby => absurd hby.1 (Nat.not_lt.2 hn)
  obtain ⟨hcaught, hpending, hidle⟩ := hquiet
  rcases hs.caughtUp hcaught with hp | ⟨k, hk⟩ | hcov
  · rw [hpending] at hp
    cases hp
  · rw [hidle k] at hk
    cases hk
  · rcases hcov r hr n hn.le hn with heval | ⟨k, _, _, _, -, hk, -⟩
    · exact heval
    · rw [hidle k] at hk
      cases hk

/-! ## A rule that writes to the entity it watches -/

def coolingRule : String := "start-cooling"

def tankState : EntityState where
  id := "acme.ops.plant.line.tank.1"
  triples := []
  storageRef := none
  messageType := ⟨"plant", "tank", "v1"⟩
  version := 1
  updatedAt := 0

/-- A sensor's write, and the rule's own. -/
def sensorWrite : Write := ⟨none, some tankState⟩

def coolingWrite : Write := ⟨some coolingRule, some tankState⟩

/-- The coalescer fires, fetches, and visits the rule. -/
def coolingBatch : List (WatchEvent Unit) :=
  [.fire 0, .fetch 0 true, .visit 0 coolingRule, .finish 0]

/-- The sensor's write is evaluated before the rule writes, and the rule is
skipped on its own revision only. -/
def coolingApart : List (WatchEvent Unit) :=
  [.write sensorWrite, .deliver () 1 0 false] ++ coolingBatch ++
    [.write coolingWrite, .track coolingRule 2, .deliver () 2 0 false] ++ coolingBatch

/-- A second write of the sensor lands before the rule's own. -/
def coolingMerged : List (WatchEvent Unit) :=
  [.write sensorWrite, .deliver () 1 0 false] ++ coolingBatch ++
    [.write sensorWrite, .write coolingWrite, .track coolingRule 3, .deliver () 2 0 false,
      .deliver () 3 0 false] ++ coolingBatch

set_option maxRecDepth 10000 in
theorem external_changes_evaluated_cooling :
    ∃ s, run (watchStep [coolingRule]) (init Unit) coolingApart = some s ∧ s.Quiet ∧
      ByOther s.log coolingRule 1 ∧ ∃ m, 1 ≤ m ∧ (coolingRule, m) ∈ s.evaluated := by
  refine exists_end (P := fun s => s.Quiet ∧ ByOther s.log coolingRule 1) ?_ fun s hrun hs => ?_
  · refine ⟨_, rfl, ⟨fun _ => rfl, rfl, ?_⟩, by decide, sensorWrite, rfl, by simp [sensorWrite]⟩
    rintro (_ | n) <;> rfl
  refine ⟨hs.1, hs.2, external_changes_evaluated ?_ hrun hs.1 (mem_singleton_self _) hs.2⟩
  iterate 3 refine (along_cons rfl).2 ⟨trivial, ?_⟩
  refine (along_cons rfl).2 ⟨rfl, (along_cons rfl).2 ⟨?_, ?_⟩⟩
  · rintro snap asOf rest ⟨⟩ hskip
    cases hskip
  iterate 5 refine (along_cons rfl).2 ⟨trivial, ?_⟩
  refine (along_cons rfl).2 ⟨rfl, (along_cons rfl).2 ⟨?_, (along_cons rfl).2 ⟨trivial, trivial⟩⟩⟩
  rintro snap asOf rest ⟨⟩ - n hn hby
  -- the only revision before the rule's own is the one it was evaluated on
  refine .inl ⟨1, ?_, mem_singleton_self _⟩
  change n < 2 at hn
  omega

set_option maxRecDepth 10000 in
/-- **An own write hides another writer's.** Both are in one batch; the batch
fetches the rule's own revision and skips the rule, which is never evaluated on
the sensor's second write. -/
theorem external_change_dropped :
    ∃ s, run (watchStep [coolingRule]) (init Unit) coolingMerged = some s ∧ s.Quiet ∧
      ByOther s.log coolingRule 2 ∧ s.evaluated = [(coolingRule, 1)] := by
  refine ⟨_, rfl, ⟨fun _ => rfl, rfl, ?_⟩, ⟨by decide, sensorWrite, rfl, by simp [sensorWrite]⟩, rfl⟩
  rintro (_ | n) <;> rfl

end SemStreams.Rule
