import SemStreams.Lib.Run
import SemStreams.Graph.Entity
/-!
# Rules — stateful evaluation and recovery after a restart

`StatefulEvaluator.Evaluate` compares the persisted match state of a rule
and an entity with the current match, runs the actions of the transition
and persists the new state. Two mechanisms speak about restarts. The
stale-replay guard skips an evaluation whose revision the persisted state
already carries. The bootstrap promotion turns a match that persisted
across the restart into a synthetic entry, so that a rule can declare
recovery actions.

They meet on the ordinary restart, where the entity did not change while
the process was down: the replay presents the revision the persisted state
carries, and the guard comes first. `recovery_fires_iff` says when the
recovery actions run.
-/

namespace SemStreams.Rule

open SemStreams.Graph List Function

/-- One condition of a rule or of a `When` clause. -/
structure Condition where
  field : String
  operator : String
  value : String
deriving DecidableEq

/-- `expression.OpTransition`. -/
def opTransition : String := "transition"

/-- An action, as far as its gates look at it. `effectiveID` is the
author's id, or the fingerprint of the action's shape. -/
structure Action where
  effectiveID : String
  whenClause : List Condition := []
  maxIterations : Option ℤ := none
deriving DecidableEq

def defaultActionMaxIterations : ℤ := 3

/-- The resolved firing cap, and whether it is the framework's default. -/
def Action.effectiveMaxIterations (a : Action) : ℤ × Bool :=
  match a.maxIterations with
  | none => (defaultActionMaxIterations, true)
  | some n => (n, false)

def isUnlimited (maxIter : ℤ) : Bool := maxIter = 0

/-- A rule `Definition`. -/
structure Definition where
  id : String
  conditions : List Condition
  onEnter : List Action
  onExit : List Action
  whileTrue : List Action
  onRecovery : List Action
  rerunOnRecovery : Bool
  maxIterations : ℤ

inductive Transition
  | none
  | entered
  | exited
deriving DecidableEq

def detectTransition (wasMatching nowMatching : Bool) : Transition :=
  if !wasMatching && nowMatching then .entered
  else if wasMatching && !nowMatching then .exited
  else .none

/-- The values of fields seen at an evaluation. -/
abbrev FieldValues := String → Option String

/-- `MatchState`, what the tracker persists for a rule and an entity. -/
structure MatchState where
  ruleID : String
  entityKey : String
  isMatching : Bool
  lastTransition : Transition
  transitionAt : ℕ
  sourceRevision : ℕ
  lastChecked : ℕ
  iteration : ℕ
  maxIterations : ℤ
  fieldValues : FieldValues
  /-- how often each action has fired, by its effective id -/
  actionIterations : String → ℕ

/-- The state fields a `When` clause sees. -/
structure StateFields where
  iteration : ℕ
  maxIterations : ℤ
  lastTransition : Transition
  prev : FieldValues

/-- How the execution of one action ends. -/
inductive ExecResult
  | ok
  | denied
  | failed
deriving DecidableEq

/-- The inputs of one evaluation, the rule apart. -/
structure Evaluation where
  entityID : String
  relatedID : String := ""
  entity : Option EntityState
  currentlyMatching : Bool
  revision : ℕ
  bootstrap : Bool

def buildPairKey (entityID₁ entityID₂ : String) : String :=
  if entityID₁ < entityID₂ then entityID₁ ++ "_" ++ entityID₂ else entityID₂ ++ "_" ++ entityID₁

def Evaluation.entityKey (ev : Evaluation) : String :=
  if ev.relatedID = "" then ev.entityID else buildPairKey ev.entityID ev.relatedID

/-- How the surroundings answer one evaluation: the bucket, the expression
evaluator (`none` is an evaluation error), the executor at each position of
the action list, the clock. -/
structure Surroundings where
  getOk : Bool := true
  reEvaluate : FieldValues → Option Bool := fun _ => none
  evaluateWhen : List Condition → StateFields → Option Bool := fun _ _ => some true
  execute : ℕ → ExecResult := fun _ => .ok
  format : Object → String := fun _ => ""
  setOk : Bool := true
  /-- a failed write that is in the bucket all the same -/
  setLanded : Bool := false
  now : ℕ := 0

inductive TrackerError
  | emptyRuleID
  | emptyEntityKey
  | stateNotFound
  | getFailed
  | putFailed
deriving DecidableEq

/-- The text of the error. -/
def TrackerError.message : TrackerError → String
  | .emptyRuleID => "rule ID cannot be empty"
  | .emptyEntityKey => "entity key cannot be empty"
  | .stateNotFound => "rule state not found"
  | .getFailed => "get rule state"
  | .putFailed => "put rule state"

/-- `StateTracker.Get` on what the bucket holds under the state key. -/
def trackerGet (persisted : Option MatchState) (ok : Bool) (ruleID entityKey : String) :
    Except TrackerError MatchState :=
  if ruleID = "" then .error .emptyRuleID
  else if entityKey = "" then .error .emptyEntityKey
  else if !ok then .error .getFailed
  else
    match persisted with
    | none => .error .stateNotFound
    | some st => .ok st

/-- `StateTracker.Set`: the bucket after it, and its error. -/
def trackerSet (persisted : Option MatchState) (ok landed : Bool) (st : MatchState) :
    Option MatchState × Option TrackerError :=
  if st.ruleID = "" then (persisted, some .emptyRuleID)
  else if st.entityKey = "" then (persisted, some .emptyEntityKey)
  else if ok then (some st, none)
  else (if landed then some st else persisted, some .putFailed)

def hasTransitionConditions (rule : Definition) : Bool :=
  rule.conditions.any fun c => c.operator == opTransition

/-- `reEvaluateTransitions`: a rule with transition operators is matched
again with the previous field values; an evaluation error keeps the match
it had. -/
def reEvaluateTransitions (rule : Definition) (ev : Evaluation) (env : Surroundings)
    (prev : FieldValues) : Bool :=
  if !hasTransitionConditions rule || ev.entity.isNone then ev.currentlyMatching
  else (env.reEvaluate prev).getD ev.currentlyMatching

def shouldFireOnRecovery (rule : Definition) : Bool :=
  !rule.onRecovery.isEmpty || (rule.rerunOnRecovery && !rule.onEnter.isEmpty)

/-- `captureTransitionFields`: the current values of the fields that
transition conditions name; the last triple of a predicate wins. -/
def captureTransitionFields (rule : Definition) (entity : Option EntityState)
    (format : Object → String) : FieldValues := fun field =>
  let actions := rule.onEnter ++ rule.onExit ++ rule.whileTrue
  let conditions := rule.conditions ++ actions.flatMap Action.whenClause
  match entity with
  | none => none
  | some e =>
    if conditions.any fun c => c.operator == opTransition && c.field == field then
      (e.triples.reverse.find? fun t => t.predicate == field).map fun t => format t.object
    else none

def selectActions (rule : Definition) (transition : Transition) (currentlyMatching recovering : Bool) :
    List Action :=
  match transition with
  | .entered => if recovering && !rule.onRecovery.isEmpty then rule.onRecovery else rule.onEnter
  | .exited => rule.onExit
  | .none => if currentlyMatching then rule.whileTrue else []

/-- An action without a `When` clause passes it. -/
def passesWhen (env : Surroundings) (fields : StateFields) (a : Action) : Bool :=
  a.whenClause.isEmpty || env.evaluateWhen a.whenClause fields == some true

def capReached (fired : ℕ) (a : Action) : Bool :=
  !isUnlimited a.effectiveMaxIterations.1 && decide (a.effectiveMaxIterations.1 ≤ fired)

/-- `runActions` from position `i` of the list on: the actions executed,
and the firing counts after them. -/
def runActions (env : Surroundings) (fields : StateFields) :
    ℕ → List Action → (String → ℕ) → List Action × (String → ℕ)
  | _, [], counts => ([], counts)
  | i, a :: as, counts =>
    if !passesWhen env fields a then runActions env fields (i + 1) as counts
    else if capReached (counts a.effectiveID) a then runActions env fields (i + 1) as counts
    else
      let counts := update counts a.effectiveID (counts a.effectiveID + 1)
      match env.execute i with
      -- a deny verdict is terminal, any other failure is not
      | .denied => ([a], counts)
      | _ =>
        let rest := runActions env fields (i + 1) as counts
        (a :: rest.1, rest.2)

/-- What an evaluation returns, the actions it executed, and the persisted
state after it. -/
structure Evaluated where
  transition : Transition
  error : Option TrackerError
  executed : List Action
  persisted : Option MatchState

/-- The state `Evaluate` starts from when nothing is persisted. -/
def MatchState.zero : MatchState where
  ruleID := ""
  entityKey := ""
  isMatching := false
  lastTransition := .none
  transitionAt := 0
  sourceRevision := 0
  lastChecked := 0
  iteration := 0
  maxIterations := 0
  fieldValues := fun _ => none
  actionIterations := fun _ => 0

/-- `Evaluate` behind the read of the previous state: the guard, the
transition, the actions, the write. -/
def evaluateFrom (rule : Definition) (persisted : Option MatchState) (hadPrevState : Bool)
    (prevState : MatchState) (ev : Evaluation) (env : Surroundings) : Evaluated :=
  if ev.revision > 0 ∧ hadPrevState ∧ prevState.sourceRevision ≥ ev.revision then
    ⟨.none, none, [], persisted⟩
  else
    let currentlyMatching := reEvaluateTransitions rule ev env prevState.fieldValues
    let detected := detectTransition (hadPrevState && prevState.isMatching) currentlyMatching
    let recovering := ev.bootstrap && hadPrevState && decide (detected = .none) &&
      currentlyMatching && shouldFireOnRecovery rule
    let transition := if recovering then .entered else detected
    let iteration := if transition = .entered then prevState.iteration + 1 else prevState.iteration
    let fields : StateFields :=
      { iteration, maxIterations := rule.maxIterations, lastTransition := transition
        prev := prevState.fieldValues }
    let actions := selectActions rule transition currentlyMatching recovering
    let (executed, counts) := runActions env fields 0 actions prevState.actionIterations
    let matchState : MatchState :=
      { ruleID := rule.id, entityKey := ev.entityKey, isMatching := currentlyMatching
        lastTransition := transition, transitionAt := env.now, sourceRevision := ev.revision
        lastChecked := env.now, iteration, maxIterations := rule.maxIterations
        fieldValues := captureTransitionFields rule ev.entity env.format
        actionIterations := counts }
    let (persisted, error) := trackerSet persisted env.setOk env.setLanded matchState
    ⟨transition, error, executed, persisted⟩

/-- `Evaluate`, on what the bucket holds for the rule and the entity. -/
def evaluate (rule : Definition) (persisted : Option MatchState) (ev : Evaluation)
    (env : Surroundings) : Evaluated :=
  match trackerGet persisted env.getOk rule.id ev.entityKey with
  | .ok prevState => evaluateFrom rule persisted true prevState ev env
  | .error .stateNotFound => evaluateFrom rule persisted false .zero ev env
  | .error err => ⟨.none, some err, [], persisted⟩

/-- One evaluation of the rule for one entity key. The evaluator keeps
nothing between evaluations, so a restart is no step of its own. -/
def evaluateStep (rule : Definition) (entityKey : String) (persisted : Option MatchState)
    (call : Evaluation × Surroundings) : Option (Option MatchState) :=
  if call.1.entityKey = entityKey then some (evaluate rule persisted call.1 call.2).persisted
  else none

/-! ## The gates of the action list -/

section Gates

variable {env : Surroundings} {fields : StateFields}

/-- **No gate stops the list.** Every action passes its `When` clause, has
firings left when its turn comes (counting those of the list before it),
and no action but the last is denied. -/
def Admitted (env : Surroundings) (fields : StateFields) (i : ℕ) (actions : List Action)
    (counts : String → ℕ) : Prop :=
  ∀ before a after, actions = before ++ a :: after →
    passesWhen env fields a = true ∧
    capReached (counts a.effectiveID +
      before.countP fun b => b.effectiveID = a.effectiveID) a = false ∧
    (env.execute (i + before.length) = .denied → after = [])

theorem length_runActions_le (i : ℕ) (actions : List Action) (counts : String → ℕ) :
    (runActions env fields i actions counts).1.length ≤ actions.length := by
  induction actions generalizing i counts with
  | nil => simp [runActions]
  | cons a as ih =>
    simp only [runActions]
    split
    · exact (ih (i + 1) counts).trans (by simp)
    split
    · exact (ih (i + 1) counts).trans (by simp)
    · split
      · simp
      · simpa using ih (i + 1) _

/-- Admission of a list is admission of its head, and of its tail with the
head's firing counted. -/
theorem admitted_cons :
    Admitted env fields i (a :: as) counts ↔
      passesWhen env fields a ∧ capReached (counts a.effectiveID) a = false ∧
      (env.execute i = .denied → as = []) ∧
      Admitted env fields (i + 1) as
        (update counts a.effectiveID (counts a.effectiveID + 1)) := by
  -- the count an action meets in the tail is the one it meets in the list
  have hcount : ∀ (before : List Action) (b : Action),
      update counts a.effectiveID (counts a.effectiveID + 1) b.effectiveID +
        (before.countP fun c => c.effectiveID = b.effectiveID) =
      counts b.effectiveID + (a :: before).countP fun c => c.effectiveID = b.effectiveID := by
    intro before b
    rw [countP_cons]
    by_cases h : a.effectiveID = b.effectiveID
    · rw [h, update_self]
      simp only [decide_true, if_true]
      omega
    · rw [update_of_ne (fun h' => h h'.symm)]
      simp [h]
  constructor
  · intro h
    obtain ⟨hwhen, hcap, hdeny⟩ := h [] a as rfl
    refine ⟨hwhen, by simpa using hcap, by simpa using hdeny, fun before b after heq => ?_⟩
    obtain ⟨hwhen', hcap', hdeny'⟩ := h (a :: before) b after (by rw [heq]; rfl)
    refine ⟨hwhen', by rw [hcount]; exact hcap', fun hd => hdeny' ?_⟩
    rw [← hd, length_cons]
    congr 1
    omega
  · rintro ⟨hwhen, hcap, hdeny, htail⟩ before b after heq
    cases before with
    | nil =>
      obtain ⟨rfl, rfl⟩ : a = b ∧ as = after := by simpa using heq
      exact ⟨hwhen, by simpa using hcap, by simpa using hdeny⟩
    | cons x before =>
      obtain ⟨rfl, rfl⟩ : a = x ∧ as = before ++ b :: after := by simpa using heq
      obtain ⟨hwhen', hcap', hdeny'⟩ := htail before b after rfl
      refine ⟨hwhen', by rw [← hcount]; exact hcap', fun hd => hdeny' ?_⟩
      rw [← hd, length_cons]
      congr 1
      omega

/-- **The list is executed, every action once and in order, exactly if no
gate stops it.** -/
theorem runActions_eq_iff (i : ℕ) (actions : List Action) (counts : String → ℕ) :
    (runActions env fields i actions counts).1 = actions ↔
      Admitted env fields i actions counts := by
  induction actions generalizing i counts with
  | nil => simp [runActions, Admitted]
  | cons a as ih =>
    -- a skipped action shortens the list
    have hskip : (runActions env fields (i + 1) as counts).1 ≠ a :: as := by
      intro h
      have hlen := @length_runActions_le env fields (i + 1) as counts
      rw [h, length_cons] at hlen
      omega
    rw [admitted_cons]
    simp only [runActions]
    cases hwhen : passesWhen env fields a with
    | false => simpa using hskip
    | true =>
      cases hcap : capReached (counts a.effectiveID) a with
      | true => simpa using hskip
      | false =>
        cases hexec : env.execute i with
        | denied =>
          constructor
          · intro h
            obtain rfl : [] = as := by simpa using h
            exact ⟨rfl, rfl, fun _ => rfl, (ih (i + 1) _).1 (by simp [runActions])⟩
          · rintro ⟨-, -, hnil, -⟩
            simp [hnil rfl]
        | ok => simp [ih]
        | failed => simp [ih]

end Gates

/-! ## Recovery after a restart -/

def recoveryActions (rule : Definition) : List Action :=
  if rule.onRecovery.isEmpty then rule.onEnter else rule.onRecovery

/-- The state fields the recovery actions are run with. -/
def recoveryFields (rule : Definition) (st : MatchState) : StateFields where
  iteration := st.iteration + 1
  maxIterations := rule.maxIterations
  lastTransition := .entered
  prev := st.fieldValues

variable {rule : Definition} {entityKey : String} {st : MatchState} {ev : Evaluation}
  {env : Surroundings}

theorem recoveryActions_ne_nil (hopt : shouldFireOnRecovery rule) :
    recoveryActions rule ≠ [] := by
  unfold recoveryActions
  unfold shouldFireOnRecovery at hopt
  split
  · rename_i h
    rw [h] at hopt
    intro hnil
    simp [hnil] at hopt
  · rename_i h
    intro hnil
    simp [hnil] at h

theorem run_persisted (hrun : run (evaluateStep rule entityKey) none calls = some (some st)) :
    rule.id ≠ "" ∧ entityKey ≠ "" := by
  have hinv := run_invariant
    (I := fun persisted : Option MatchState => persisted ≠ none → rule.id ≠ "" ∧ entityKey ≠ "")
    (fun persisted call persisted' hkeys hstep => by
      unfold evaluateStep at hstep
      split at hstep
      · rename_i hev
        cases hstep
        intro h
        by_cases hid : rule.id = ""
        · refine hkeys fun hnone => h ?_
          simp [evaluate, trackerGet, hid, hnone]
        by_cases hkey : entityKey = ""
        · refine hkeys fun hnone => h ?_
          simp [evaluate, trackerGet, hid, hev, hkey, hnone]
        exact ⟨hid, hkey⟩
      · simp at hstep)
    (fun h => absurd rfl h) hrun
  exact hinv (by simp)

/-- A replay the guard lets through runs the recovery actions. -/
theorem evaluateFrom_recovery (hmatching : st.isMatching)
    (hopt : shouldFireOnRecovery rule) (hboot : ev.bootstrap)
    (hmatch : reEvaluateTransitions rule ev env st.fieldValues)
    (hguard : ¬ (ev.revision > 0 ∧ (true = true) ∧ st.sourceRevision ≥ ev.revision)) :
    (evaluateFrom rule persisted true st ev env).executed =
      (runActions env (recoveryFields rule st) 0 (recoveryActions rule) st.actionIterations).1 := by
  have hselect : selectActions rule .entered true true = recoveryActions rule := by
    unfold selectActions recoveryActions
    cases rule.onRecovery.isEmpty <;> simp
  unfold evaluateFrom
  rw [if_neg hguard]
  simp only [hmatch, hmatching, hboot, hopt, detectTransition, Bool.and_true, Bool.not_true,
    Bool.and_false, Bool.false_eq_true, if_false, decide_true, if_true, hselect]
  rfl

/-- **When recovery fires.** After every run of evaluations and a restart,
with a persisted match that still matches on the replay, a rule that opts
into recovery has its recovery actions executed, each exactly once, exactly
if the replayed revision is past the one the persisted state carries (or
unknown) and no gate of the actions' own stops them. -/
theorem recovery_fires_iff {calls : List (Evaluation × Surroundings)}
    (hrun : run (evaluateStep rule entityKey) none calls = some (some st))
    (hmatching : st.isMatching = true) (hopt : shouldFireOnRecovery rule = true)
    (hev : ev.entityKey = entityKey) (hboot : ev.bootstrap = true) (hget : env.getOk = true)
    (hmatch : reEvaluateTransitions rule ev env st.fieldValues = true) :
    (evaluate rule (some st) ev env).executed = recoveryActions rule ↔
      (ev.revision = 0 ∨ st.sourceRevision < ev.revision) ∧
        Admitted env (recoveryFields rule st) 0 (recoveryActions rule) st.actionIterations := by
  obtain ⟨hid, hkey⟩ := run_persisted hrun
  have hprev : trackerGet (some st) env.getOk rule.id ev.entityKey = .ok st := by
    simp [trackerGet, hid, hev, hkey, hget]
  unfold evaluate
  rw [hprev]
  by_cases hguard : ev.revision > 0 ∧ (true = true) ∧ st.sourceRevision ≥ ev.revision
  · -- the guard skips the replay: nothing runs
    have hskip : (evaluateFrom rule (some st) true st ev env).executed = [] := by
      unfold evaluateFrom
      rw [if_pos hguard]
    rw [hskip]
    constructor
    · intro h
      exact absurd h.symm (recoveryActions_ne_nil hopt)
    · omega
  · rw [evaluateFrom_recovery hmatching hopt hboot hmatch hguard, runActions_eq_iff]
    constructor
    · intro h
      refine ⟨?_, h⟩
      by_contra hrev
      exact hguard ⟨by omega, rfl, by omega⟩
    · exact fun h => h.2

/-- A rule that only declares what to do on recovery. -/
def parkRule : Definition where
  id := "in-flight-work-recovery"
  conditions := [⟨"work.task.status", "eq", "in_progress"⟩]
  onEnter := []
  onExit := []
  whileTrue := []
  onRecovery := [{ effectiveID := "park" }]
  rerunOnRecovery := false
  maxIterations := 0

/-- An evaluation of the work item with the rule matching, at a revision. -/
def workEvaluation (revision : ℕ) (bootstrap : Bool) : Evaluation where
  entityID := "acme.dep1.work.queue.task.1"
  entity := none
  currentlyMatching := true
  revision := revision
  bootstrap := bootstrap

/-- A replay that presents a newer revision recovers. -/
theorem recovery_fires_past_source_revision :
    ∃ st, run (evaluateStep parkRule "acme.dep1.work.queue.task.1") none
        [(workEvaluation 7 false, {})] = some (some st) ∧ st.isMatching = true ∧
      (evaluate parkRule (some st) (workEvaluation 8 true) {}).executed =
        recoveryActions parkRule := by
  refine' ⟨_, ?run, ?met, (recovery_fires_iff ?run ?met rfl rfl rfl rfl rfl).2 ⟨.inr ?_, ?_⟩⟩
  iterate 2 rfl
  · decide
  · rw [← runActions_eq_iff]
    rfl

/-- **The ordinary restart does not recover.** The rule matched at revision
7, nothing changed while the process was down, and the replay presents
revision 7: the persisted state matches, the conditions match, the rule
opts in, and no recovery action is executed. -/
theorem recovery_skipped_at_source_revision :
    ∃ st, run (evaluateStep parkRule "acme.dep1.work.queue.task.1") none
        [(workEvaluation 7 false, {})] = some (some st) ∧ st.isMatching = true ∧
      shouldFireOnRecovery parkRule = true ∧
      reEvaluateTransitions parkRule (workEvaluation 7 true) {} st.fieldValues = true ∧
      st.sourceRevision = (workEvaluation 7 true).revision ∧ recoveryActions parkRule ≠ [] ∧
      (evaluate parkRule (some st) (workEvaluation 7 true) {}).executed = [] :=
  ⟨_, rfl, rfl, rfl, rfl, rfl, by decide, rfl⟩

end SemStreams.Rule
