import SemStreams.Lib.Slots
import SemStreams.Rule.EvaluationFence
import SemStreams.Rule.StatefulEvaluator
/-!
# Rules — evaluations of one entity side by side

An admitted snapshot is evaluated without a lock: `Evaluate` reads the persisted
match state, runs the actions its firing counts still allow, and writes the
state back unconditionally. Two evaluations of one rule and one entity may both
read before either writes; the later write then undoes the earlier one's source
revision and firing counts.

The state carries two histories no code reads, both since the entity was last
deleted: the source revisions persisted and the actions executed.
-/

namespace SemStreams.Rule

open SemStreams.Graph List Function Option

/-! ## What the actions of one evaluation count -/

section Counts

variable {env : Surroundings}

/-- How often actions with this effective id are in the list. -/
def firings (executed : List Action) (id : String) : ℕ :=
  executed.countP fun a => a.effectiveID = id

/-- Every execution is counted under its action's id. -/
theorem runActions_counts (i : ℕ) (actions : List Action) (counts : String → ℕ) (id : String) :
    (runActions env fields i actions counts).2 id =
      counts id + firings (runActions env fields i actions counts).1 id := by
  induction actions generalizing i counts with
  | nil => rfl
  | cons a as ih =>
    have hhead : ∀ rest, update counts a.effectiveID (counts a.effectiveID + 1) id +
        firings rest id = counts id + firings (a :: rest) id := by
      simp only [firings, countP_cons]
      by_cases h : a.effectiveID = id
      · subst h
        simp only [update_self, decide_true, if_true]
        omega
      · rw [update_of_ne (Ne.symm h)]
        simp [h]
    simp only [runActions]
    split
    · exact ih (i + 1) counts
    split
    · exact ih (i + 1) counts
    split
    · exact hhead []
    · rw [ih]
      exact hhead _

/-- **A cap holds over one evaluation.** An action that was executed at most as
often as its count says, and within its cap, stays within its cap. -/
theorem runActions_cap {a : Action} (hcap : 0 < a.effectiveMaxIterations.1) {fired : ℕ}
    (i : ℕ) (actions : List Action) (counts : String → ℕ) (hcount : fired ≤ counts a.effectiveID)
    (hle : (fired : ℤ) ≤ a.effectiveMaxIterations.1) :
    ((fired + (runActions env fields i actions counts).1.count a : ℕ) : ℤ) ≤
      a.effectiveMaxIterations.1 := by
  induction actions generalizing i counts fired with
  | nil => simpa [runActions] using hle
  | cons b as ih =>
    simp only [runActions]
    split
    · exact ih _ _ hcount hle
    split
    · exact ih _ _ hcount hle
    next hroom =>
    -- the head is executed: it is the action itself, with room left, or another one
    by_cases hab : b = a
    · subst hab
      have hlt : (counts b.effectiveID : ℤ) < b.effectiveMaxIterations.1 := by
        simp only [capReached, isUnlimited, Bool.and_eq_true, Bool.not_eq_true',
          decide_eq_true_eq, decide_eq_false_iff_not, not_and] at hroom
        omega
      split
      · simp only [count_cons_self, count_nil]
        omega
      · rw [count_cons_self, Nat.add_comm _ 1, ← Nat.add_assoc]
        refine ih _ _ ?_ (by omega)
        rw [update_self]
        omega
    · have hcount' : fired ≤
          update counts b.effectiveID (counts b.effectiveID + 1) a.effectiveID := by
        by_cases hid : a.effectiveID = b.effectiveID
        · rw [hid, update_self]
          rw [hid] at hcount
          omega
        · rw [update_of_ne hid]
          exact hcount
      split <;> rw [count_cons_of_ne hab]
      · simpa using hle
      · exact ih _ _ hcount' hle

end Counts

/-! ## The evaluations of one rule and one entity -/

/-- An evaluation in progress: its snapshot is admitted; it has read the match
state; it has executed its actions; the match states of a deleted entity are to
be deleted. -/
inductive Call
  | admitted (snap : EntitySnapshot) (bootstrap : Bool)
  | evaluating (deletes : Bool) (ev : Evaluation) (hadPrevState : Bool) (prev : MatchState)
  | acted (deletes : Bool) (ev : Evaluation) (env : Surroundings) (hadPrevState : Bool)
      (prev : MatchState)
  | cleaning

structure PairState where
  persisted : Option MatchState
  fence : FenceEntry
  calls : ℕ → Option Call
  written : List ℕ
  executed : List Action

open PairState

inductive PairEvent
  | admitSnapshot (n : ℕ) (snap : EntitySnapshot) (bootstrap : Bool)
  | skip (n : ℕ)
  | get (n : ℕ) (matching ok : Bool)
  | act (n : ℕ) (env : Surroundings)
  | set (n : ℕ)
  | clean (n : ℕ) (ok : Bool)
  | evict

def PairState.init : PairState where
  persisted := none
  fence := {}
  calls := fun _ => none
  written := []
  executed := []

/-- The call has returned from `Evaluate`, or has not called it: the match
states of a deleted entity are deleted next, otherwise it is over. -/
def PairState.finish (s : PairState) (n : ℕ) (deletes : Bool) : PairState :=
  if deletes then { s with calls := update s.calls n (some .cleaning) }
  else { s with calls := update s.calls n none, fence := s.fence.release }

/-- The evaluation of a snapshot under the rule, with the rule's match. -/
def EntitySnapshot.evaluation (snap : EntitySnapshot) (entityID : String) (matching bootstrap : Bool) :
    Evaluation where
  entityID := entityID
  entity := snap.state
  currentlyMatching := matching
  revision := snap.revision
  bootstrap := bootstrap

/-- The match state an `Evaluate` works on once it has read, and `none` where it
returns there: the read failed or the snapshot is stale. -/
def readState (rule : Definition) (persisted : Option MatchState) (ev : Evaluation) (ok : Bool) :
    Option (Bool × MatchState) :=
  match trackerGet persisted ok rule.id ev.entityKey with
  | .ok prev =>
    if ev.revision > 0 ∧ prev.sourceRevision ≥ ev.revision then none else some (true, prev)
  | .error .stateNotFound => some (false, .zero)
  | .error _ => none

def pairStep (rule : Definition) (entityID : String) (s : PairState) : PairEvent → Option PairState
  | .admitSnapshot n snap bootstrap =>
    match s.calls n with
    | none =>
      if s.fence.admits snap then
        some
          { s with
            fence := (s.fence.record snap).retain
            calls := update s.calls n (some (.admitted snap bootstrap)) }
      else none
    | some _ => none
  | .skip n =>
    -- the rule wrote this revision itself
    match s.calls n with
    | some (.admitted snap _) => some (s.finish n (snap.action = .deleted))
    | _ => none
  | .get n matching ok =>
    match s.calls n with
    | some (.admitted snap bootstrap) =>
      let ev := snap.evaluation entityID matching bootstrap
      match readState rule s.persisted ev ok with
      | some (had, prev) =>
        some
          { s with
            calls := update s.calls n
              (some (.evaluating (snap.action = .deleted) ev had prev)) }
      | none => some (s.finish n (snap.action = .deleted))
    | _ => none
  | .act n env =>
    match s.calls n with
    | some (.evaluating deletes ev had prev) =>
      some
        { s with
          calls := update s.calls n (some (.acted deletes ev env had prev))
          executed := s.executed ++ (evaluateFrom rule s.persisted had prev ev env).executed }
    | _ => none
  | .set n =>
    match s.calls n with
    | some (.acted deletes ev env had prev) =>
      let persisted := (evaluateFrom rule s.persisted had prev ev env).persisted
      let s' := { s with
        persisted := persisted
        written := if env.setOk || env.setLanded then s.written ++ [ev.revision] else s.written }
      some (s'.finish n deletes)
    | _ => none
  | .clean n ok =>
    match s.calls n with
    | some .cleaning =>
      some
        { s with
          persisted := if ok then none else s.persisted
          written := []
          executed := []
          calls := update s.calls n none
          fence := s.fence.release }
    | _ => none
  | .evict => if s.fence.refs = 0 then some { s with fence := {} } else none

/-! ## Evaluations one after the other -/

/-- The call has read the match state and not written it back. -/
def Call.inWindow : Call → Bool
  | .evaluating .. | .acted .. => true
  | .admitted .. | .cleaning => false

/-- No evaluation stands between its read and its write. -/
def Alone (s : PairState) : Prop := ∀ m c, s.calls m = some c → c.inWindow = false

/-- An evaluation reads, and the match states are deleted, only while no other
evaluation stands between its read and its write; a write lands; and a snapshot
without a revision is evaluated only where no revision is persisted. -/
def Serial (s : PairState) : PairEvent → Prop
  | .get n _ _ => Alone s ∧ ∀ snap bootstrap, s.calls n = some (.admitted snap bootstrap) →
      snap.revision = 0 → ∀ st, s.persisted = some st → st.sourceRevision = 0
  | .set n => ∀ deletes ev env had prev, s.calls n = some (.acted deletes ev env had prev) →
      (env.setOk || env.setLanded) = true
  | .clean _ _ => Alone s
  | _ => True

/-- What `Evaluate` has read is what is persisted, and its revision is not below
the persisted one. -/
structure Reads (rule : Definition) (persisted : Option MatchState) (ev : Evaluation) (had : Bool)
    (prev : MatchState) : Prop where
  ruleID : rule.id ≠ ""
  entityKey : ev.entityKey ≠ ""
  read : had = true ∧ persisted = some prev ∨ had = false ∧ persisted = none ∧ prev = .zero
  notStale : ¬(ev.revision > 0 ∧ had = true ∧ prev.sourceRevision ≥ ev.revision)
  mono : ∀ st, persisted = some st → st.sourceRevision ≤ ev.revision

/-- The state the evaluation writes, whatever is persisted by then. -/
structure Writes (rule : Definition) (had : Bool) (prev : MatchState) (ev : Evaluation)
    (env : Surroundings) (st : MatchState) : Prop where
  lands : (env.setOk || env.setLanded) = true → ∀ persisted,
    (evaluateFrom rule persisted had prev ev env).persisted = some st
  revision : st.sourceRevision = ev.revision

section Evaluate

variable {rule : Definition} {persisted : Option MatchState} {ev : Evaluation} {had : Bool}
  {prev : MatchState}

/-- **Behind the read, an evaluation is its action list and one write.** -/
theorem evaluateFrom_eq (had : Bool) (prev : MatchState) (ev : Evaluation) (env : Surroundings)
    (h : ¬(ev.revision > 0 ∧ had ∧ prev.sourceRevision ≥ ev.revision)) :
    ∃ transition fields actions st,
      (∀ persisted, evaluateFrom rule persisted had prev ev env =
        ⟨transition, (trackerSet persisted env.setOk env.setLanded st).2,
          (runActions env fields 0 actions prev.actionIterations).1,
          (trackerSet persisted env.setOk env.setLanded st).1⟩) ∧
      st.ruleID = rule.id ∧ st.entityKey = ev.entityKey ∧ st.sourceRevision = ev.revision ∧
      st.actionIterations = (runActions env fields 0 actions prev.actionIterations).2 := by
  unfold evaluateFrom
  simp only [if_neg h]
  exact ⟨_, _, _, _, fun _ => rfl, rfl, rfl, rfl, rfl⟩

/-- The write lands, whatever is persisted by then. -/
theorem Reads.writes (h : Reads rule persisted ev had prev) (env : Surroundings) :
    ∃ fields actions st, Writes rule had prev ev env st ∧
      (∀ persisted, (evaluateFrom rule persisted had prev ev env).executed =
        (runActions env fields 0 actions prev.actionIterations).1) ∧
      st.actionIterations = (runActions env fields 0 actions prev.actionIterations).2 := by
  obtain ⟨_, fields, actions, st, heq, hrule, hkey, hrev, hcounts⟩ :=
    evaluateFrom_eq had prev ev env h.notStale
  refine ⟨fields, actions, st, ⟨fun hlands persisted => ?_, hrev⟩, fun persisted => ?_, hcounts⟩
  · rw [heq, trackerSet, hrule, hkey, if_neg h.ruleID, if_neg h.entityKey]
    cases hok : env.setOk with
    | true => rfl
    | false =>
      rw [hok, Bool.false_or] at hlands
      rw [hlands]
      rfl
  · rw [heq]

/-- The read of `Evaluate`, where it goes on. -/
theorem reads_of_readState (h : readState rule persisted ev ok = some (had, prev))
    (hzero : ev.revision = 0 → ∀ st, persisted = some st → st.sourceRevision = 0) :
    Reads rule persisted ev had prev := by
  unfold readState trackerGet at h
  by_cases hrule : rule.id = ""
  · rw [if_pos hrule] at h
    cases h
  by_cases hkey : ev.entityKey = ""
  · rw [if_neg hrule, if_pos hkey] at h
    cases h
  rw [if_neg hrule, if_neg hkey] at h
  cases ok with
  | false => cases h
  | true =>
    cases persisted with
    | none =>
      cases h
      exact ⟨hrule, hkey, .inr ⟨rfl, rfl, rfl⟩, fun h => absurd h.2.1 Bool.false_ne_true, nofun⟩
    | some st =>
      simp only [Bool.not_true, Bool.false_eq_true, if_false] at h
      split at h
      · cases h
      next hfresh =>
      cases h
      refine ⟨hrule, hkey, .inl ⟨rfl, rfl⟩, fun h => hfresh ⟨h.1, h.2.2⟩, ?_⟩
      rintro st ⟨⟩
      by_cases hrev : ev.revision = 0
      · rw [hzero hrev prev rfl]
        exact Nat.zero_le _
      · by_contra hle
        exact hfresh ⟨by omega, by omega⟩

end Evaluate

def countsOf (persisted : Option MatchState) (id : String) : ℕ :=
  persisted.elim 0 fun st => st.actionIterations id

/-- An evaluation between its read and its write has read what is persisted,
and the executions so far are counted in what it has read or will write. -/
def Call.Sound (rule : Definition) (persisted : Option MatchState) (executed : List Action) :
    Call → Prop
  | .admitted .. | .cleaning => True
  | .evaluating _ ev had prev => Reads rule persisted ev had prev ∧
      ∀ id, firings executed id ≤ prev.actionIterations id
  | .acted _ ev env had prev => Reads rule persisted ev had prev ∧
      ∃ st, Writes rule had prev ev env st ∧ ∀ id, firings executed id ≤ st.actionIterations id

structure PairState.Sound (rule : Definition) (s : PairState) : Prop where
  one : ∀ m k c d, s.calls m = some c → s.calls k = some d → c.inWindow = true →
    d.inWindow = true → m = k
  call : ∀ m c, s.calls m = some c → c.Sound rule s.persisted s.executed
  counted : Alone s → ∀ id, firings s.executed id ≤ countsOf s.persisted id
  capped : ∀ a : Action, 0 < a.effectiveMaxIterations.1 →
    (s.executed.count a : ℤ) ≤ a.effectiveMaxIterations.1
  mono : s.written.Pairwise (· ≤ ·)
  high : ∀ r ∈ s.written, ∃ st, s.persisted = some st ∧ r ≤ st.sourceRevision

variable {rule : Definition} {entityID : String} {s s' : PairState} {n : ℕ} {c : Call}

theorem Call.Sound.of_not_inWindow {persisted : Option MatchState} {executed : List Action}
    (h : c.inWindow = false) : c.Sound rule persisted executed := by
  cases c with
  | admitted | cleaning => trivial
  | evaluating | acted => cases h

variable {fence : FenceEntry} {v : Option Call}

/-- A slot whose call is not between read and write, before and after. -/
theorem PairState.Sound.of_outside (hs : s.Sound rule)
    (hold : ∀ c, s.calls n = some c → c.inWindow = false)
    (hnew : ∀ c, v = some c → c.inWindow = false) :
    Sound rule { s with calls := update s.calls n v, fence := fence } := by
  have hin : ∀ m c, update s.calls n v m = some c → c.inWindow →
      s.calls m = some c := by
    refine forall_slot_update (fun c hc hin => ?_) fun m c hm _ => hm
    rw [hnew c hc] at hin
    cases hin
  refine ⟨fun m k c d hm hk hc hd => hs.one m k c d (hin m c hm hc) (hin k d hk hd) hc hd,
    forall_slot_update (fun c hc => .of_not_inWindow (hnew c hc)) hs.call, fun halone => ?_,
    hs.capped, hs.mono, hs.high⟩
  refine hs.counted fun m c hm => ?_
  by_cases hmn : m = n
  · exact hold c (hmn ▸ hm)
  · exact halone m c ((update_of_ne hmn _ _).trans hm)

variable {deletes : Bool}

theorem PairState.Sound.finish (hs : s.Sound rule)
    (hold : ∀ c, s.calls n = some c → c.inWindow = false) : (s.finish n deletes).Sound rule := by
  unfold PairState.finish
  split
  · exact hs.of_outside hold (by rintro c ⟨⟩; rfl)
  · exact hs.of_outside hold (fun _ h => (nomatch h))

/-- The other calls, where call `n` stands between read and write. -/
theorem PairState.Sound.others (hs : s.Sound rule) (hn : s.calls n = some c)
    (hc : c.inWindow) {m : ℕ} {d : Call} (hmn : m ≠ n) (hm : s.calls m = some d) :
    d.inWindow = false := by
  cases hd : d.inWindow with
  | false => rfl
  | true => exact absurd (hs.one m n d c hm hn hd hc) hmn

/-- The invariant, where call `n` was written and no other stands between read and write. -/
theorem PairState.Sound.of_only {calls : ℕ → Option Call} (hcalls : s.calls = update calls n v)
    (hothers : ∀ m d, m ≠ n → calls m = some d → d.inWindow = false)
    (hcall : ∀ d, v = some d → d.Sound rule s.persisted s.executed)
    (hcounted : Alone s → ∀ id, firings s.executed id ≤ countsOf s.persisted id)
    (hcapped : ∀ a : Action, 0 < a.effectiveMaxIterations.1 →
      (s.executed.count a : ℤ) ≤ a.effectiveMaxIterations.1)
    (hmono : s.written.Pairwise (· ≤ ·))
    (hhigh : ∀ r ∈ s.written, ∃ st, s.persisted = some st ∧ r ≤ st.sourceRevision) :
    s.Sound rule := by
  have hat : ∀ m d, s.calls m = some d → d.inWindow → m = n := by
    intro m d hm hd
    by_contra hmn
    rw [hcalls, update_of_ne hmn] at hm
    rw [hothers m d hmn hm] at hd
    cases hd
  refine ⟨fun m k c d hm hk hc hd => (hat m c hm hc).trans (hat k d hk hd).symm, fun m d hm => ?_,
    hcounted, hcapped, hmono, hhigh⟩
  rw [hcalls] at hm
  by_cases hmn : m = n
  · rw [hmn, update_self] at hm
    exact hcall d hm
  · rw [update_of_ne hmn] at hm
    exact .of_not_inWindow (hothers m d hmn hm)

theorem count_le_firings (executed : List Action) (a : Action) :
    executed.count a ≤ firings executed a.effectiveID := by
  refine countP_mono_left fun b _ hb => ?_
  rw [beq_iff_eq.1 hb]
  exact decide_eq_true rfl

variable {prev : MatchState} {ev : Evaluation} {had : Bool}

/-- A call that reads what is persisted, with no other between read and write. -/
theorem PairState.Sound.get (hs : s.Sound rule) (halone : Alone s)
    (hread : Reads rule s.persisted ev had prev) :
    Sound rule
      { s with calls := update s.calls n (some (.evaluating deletes ev had prev)) } := by
  refine .of_only rfl (fun m d _ => halone m d) ?_ (fun h => ?_) hs.capped hs.mono hs.high
  · rintro _ ⟨⟩
    refine ⟨hread, fun id => ?_⟩
    have hcount := hs.counted halone id
    rcases hread.read with ⟨-, hp⟩ | ⟨-, hp, rfl⟩ <;> rw [hp] at hcount
    · exact hcount
    · exact hcount
  · exact absurd (h n _ (update_self _ _ _)) Bool.noConfusion

theorem PairState.Sound.act (hs : s.Sound rule)
    (hn : s.calls n = some (.evaluating deletes ev had prev)) (env : Surroundings) :
    Sound rule
      { s with
        calls := update s.calls n (some (.acted deletes ev env had prev))
        executed := s.executed ++ (evaluateFrom rule s.persisted had prev ev env).executed } := by
  obtain ⟨hread, hcount⟩ := hs.call n _ hn
  obtain ⟨_, actions, st, hwrites, hexec, hst⟩ := hread.writes env
  refine .of_only rfl (fun m d => hs.others hn rfl) ?_ (fun h => ?_) (fun a ha => ?_) hs.mono hs.high
  · rintro _ ⟨⟩
    refine ⟨hread, st, hwrites, fun id => ?_⟩
    rw [hst, runActions_counts, hexec, firings, countP_append]
    exact Nat.add_le_add_right (hcount id) _
  · exact absurd (h n _ (update_self _ _ _)) Bool.noConfusion
  · rw [hexec, count_append]
    exact runActions_cap ha 0 actions _
      ((count_le_firings s.executed a).trans (hcount a.effectiveID)) (hs.capped a ha)

theorem PairState.Sound.set {env : Surroundings} (hs : s.Sound rule)
    (hn : s.calls n = some (.acted deletes ev env had prev))
    (hlands : (env.setOk || env.setLanded)) (hv : ∀ c, v = some c → c.inWindow = false) :
    Sound rule
      { s with
        persisted := (evaluateFrom rule s.persisted had prev ev env).persisted
        written := s.written ++ [ev.revision]
        calls := update s.calls n v
        fence := fence } := by
  obtain ⟨hread, st, hwrites, hcount⟩ := hs.call n _ hn
  have hhigh : ∀ r ∈ s.written, r ≤ ev.revision := by
    intro r hr
    obtain ⟨old, hold, hle⟩ := hs.high r hr
    exact hle.trans (hread.mono old hold)
  rw [hwrites.lands hlands]
  refine .of_only rfl (fun m d => hs.others hn rfl) (fun d hd => .of_not_inWindow (hv d hd))
    (fun _ => hcount) hs.capped ?_ ?_
  · refine pairwise_append.2 ⟨hs.mono, pairwise_singleton _ _, fun r hr r' hr' => ?_⟩
    rw [mem_singleton.1 hr']
    exact hhigh r hr
  · intro r hr
    refine ⟨st, rfl, ?_⟩
    rw [hwrites.revision]
    rcases mem_append.1 hr with hr | hr
    · exact hhigh r hr
    · exact (mem_singleton.1 hr).le

/-- **A step that keeps evaluations apart keeps the invariant.** -/
theorem PairState.Sound.step {e : PairEvent} (hs : s.Sound rule) (hC : Serial s e)
    (h : pairStep rule entityID s e = some s') : s'.Sound rule := by
  cases e with (simp only [pairStep] at h; try split at h <;> try contradiction)
  | admitSnapshot n snap bootstrap =>
    rename_i hn
    split at h <;> cases h
    exact hs.of_outside (fun c hc => by rw [hn] at hc; cases hc) (by rintro c ⟨⟩; rfl)
  | skip n =>
    rename_i hn
    cases h
    exact hs.finish fun c hc => by rw [hn] at hc; cases hc; rfl
  | get n matching ok =>
    rename_i snap bootstrap hn
    split at h
    · next hread =>
      cases h
      exact hs.get hC.1 (reads_of_readState hread (hC.2 snap bootstrap hn))
    · cases h
      exact hs.finish fun c hc => by rw [hn] at hc; cases hc; rfl
  | act n env =>
    rename_i hn
    cases h
    exact hs.act hn env
  | set n =>
    rename_i deletes ev env had prev hn
    have hlands := hC deletes ev env had prev hn
    simp only [hlands, if_true, PairState.finish] at h
    split at h <;> cases h
    · exact hs.set hn hlands (by rintro c ⟨⟩; rfl)
    · exact hs.set hn hlands (fun _ h => (nomatch h))
  | clean n ok =>
    cases h
    exact .of_only rfl (fun m d _ => hC m d) (by rintro _ ⟨⟩) (fun _ id => Nat.zero_le _)
      (fun a ha => Int.le_of_lt ha) List.Pairwise.nil (fun _ h => (nomatch h))
  | evict =>
    cases h
    exact { hs with }

/-- **Evaluations that do not overlap.** In a run that keeps them apart, the
source revision persisted never decreases, and no action is executed more often
than its cap, between two deletions of the entity. -/
theorem serial_evaluations {es : List PairEvent}
    (hC : Along (pairStep rule entityID) Serial init es)
    (h : run (pairStep rule entityID) init es = some s) :
    s.written.Pairwise (· ≤ ·) ∧
      ∀ a : Action, 0 < a.effectiveMaxIterations.1 →
        (s.executed.count a : ℤ) ≤ a.effectiveMaxIterations.1 := by
  have hs : s.Sound rule := by
    refine run_invariant_along (I := Sound rule)
      (fun s e s' hs hC hstep => hs.step hC hstep) ?_ hC h
    exact ⟨fun _ _ _ _ h => (nomatch h), fun _ _ h => (nomatch h), fun _ _ => Nat.le_refl _,
      fun a ha => Int.le_of_lt ha, List.Pairwise.nil, fun _ h => (nomatch h)⟩
  exact ⟨hs.mono, hs.capped⟩

/-! ## Two updates of one entity -/

def alarmRule : Definition where
  id := "pump-alarm"
  conditions := [⟨"pump.state.temperature", "gt", "90"⟩]
  onEnter := [{ effectiveID := "raise-alarm", maxIterations := some 1 }]
  onExit := []
  whileTrue := []
  onRecovery := []
  rerunOnRecovery := false
  maxIterations := 0

def pumpID : String := "acme.ops.plant.line.pump.3"

def pumpSnapshot (revision : ℕ) : EntitySnapshot where
  state := some
    { id := pumpID, triples := [], storageRef := none, messageType := ⟨"plant", "pump", "v1"⟩
      version := revision, updatedAt := revision }
  action := .updated
  revision := revision

set_option maxRecDepth 10000 in
/-- The same two updates, one after the other: the alarm is raised once. -/
theorem serial_evaluations_pump : ∃ s, run (pairStep alarmRule pumpID) init
        [.admitSnapshot 0 (pumpSnapshot 5) false, .get 0 true true, .act 0 {}, .set 0,
          .admitSnapshot 0 (pumpSnapshot 6) false, .get 0 true true, .act 0 {}, .set 0] = some s ∧
      (s.written, s.executed) = ([5, 6], alarmRule.onEnter) ∧
      s.written.Pairwise (· ≤ ·) ∧
      ∀ a : Action, 0 < a.effectiveMaxIterations.1 →
        (s.executed.count a : ℤ) ≤ a.effectiveMaxIterations.1 := by
  refine' ⟨_, ?run, ?_, serial_evaluations ?_ ?run⟩
  iterate 2 rfl
  refine (along_cons rfl).2 ⟨trivial, (along_cons rfl).2 ⟨⟨?_, ?_⟩, (along_cons rfl).2 ⟨trivial, ?_⟩⟩⟩
  · rintro (_ | m) c hm <;> cases hm
    rfl
  · rintro _ _ ⟨⟩ h
    cases h
  refine (along_cons rfl).2 ⟨?_, (along_cons rfl).2 ⟨trivial, (along_cons rfl).2 ⟨⟨?_, ?_⟩, ?_⟩⟩⟩
  · rintro _ _ _ _ _ ⟨⟩
    rfl
  · rintro (_ | m) c hm <;> cases hm
    rfl
  · rintro _ _ ⟨⟩ h
    cases h
  refine (along_cons rfl).2 ⟨trivial, (along_cons rfl).2 ⟨?_, trivial⟩⟩
  rintro _ _ _ _ _ ⟨⟩
  rfl

set_option maxRecDepth 10000 in
/-- **Two updates side by side.** Both evaluations read before either writes:
the alarm with a cap of one is raised twice, and the older update writes last. -/
theorem evaluations_overlap : ∃ s, run (pairStep alarmRule pumpID) init
        [.admitSnapshot 0 (pumpSnapshot 5) false, .admitSnapshot 1 (pumpSnapshot 6) false, .get 0 true true,
          .get 1 true true, .act 0 {}, .act 1 {}, .set 1, .set 0] = some s ∧
      s.written = [6, 5] ∧ s.executed = alarmRule.onEnter ++ alarmRule.onEnter ∧
      s.persisted.map MatchState.sourceRevision = some 5 := by
  exact ⟨_, rfl, rfl, rfl, rfl⟩

end SemStreams.Rule
