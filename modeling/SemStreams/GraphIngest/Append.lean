import SemStreams.Lib.Bucket
import SemStreams.Lib.Run
import SemStreams.Lib.Slots
import SemStreams.Lib.Snapshot
import SemStreams.Graph.TripleIdentity
import Mathlib.Data.List.Sort
import Mathlib.Data.List.Dedup
/-!
# graph-ingest — the append lane

`handleCanonicalAppend` admits a batch of triples, `addTriplesLane` commits it
subject by subject, each subject with one compare-and-set loop, and the reply
reports one outcome per subject. The triples of a subject that are stored
already, or repeated in the batch, are suppressed inside the loop, against the
very state the write is conditional on.

Any number of batches run at once. Between a read and its write other batches
commit, a write can fail, and a write can land although its answer is lost.
-/

namespace SemStreams.GraphIngest

open SemStreams.Graph KeyedLog

/-! ## The lane -/

/-- Why a subject of a batch failed. -/
inductive SubjectError
  /-- `MarshalEntityState` refused the candidate. -/
  | contract
  /-- The context was cancelled before the subject's turn. -/
  | cancelled
  /-- The attempts of `UpdateWithRetryRev` ran out. -/
  | abandoned
  /-- The stored state is readable but not valid. -/
  | resetRequired
  /-- The read for the reply failed. -/
  | unread
deriving DecidableEq

/-- The store did not answer, or was not asked. -/
def SubjectError.ofStore : SubjectError → Bool
  | .cancelled | .abandoned | .unread => true
  | .contract | .resetRequired => false

structure AddTriplesResult where
  written : ℕ := 0
  deduplicated : ℕ := 0
  notFoundSubjects : List String := []
  subjectErrors : List (String × SubjectError) := []
  unchangedSubjects : List String := []
  committedRevisions : List (String × ℕ) := []
deriving DecidableEq

/-- How the loop of one subject ends. -/
inductive SubjectFate
  | committed (revision suppressed : ℕ)
  | unchanged (suppressed : ℕ)
  | notFound
  | failed (err : SubjectError)
deriving DecidableEq

/-- The bookkeeping of `addTriplesLane` after the loop of a subject with a group
of so many triples. -/
def AddTriplesResult.record (result : AddTriplesResult) (subject : String) (group : ℕ) :
    SubjectFate → AddTriplesResult
  | .committed revision suppressed =>
    { result with
      written := result.written + (group - suppressed)
      deduplicated := result.deduplicated + suppressed
      committedRevisions := (subject, revision) :: result.committedRevisions }
  | .unchanged suppressed =>
    { result with
      deduplicated := result.deduplicated + suppressed
      unchangedSubjects := subject :: result.unchangedSubjects }
  | .notFound => { result with notFoundSubjects := subject :: result.notFoundSubjects }
  | .failed err => { result with subjectErrors := (subject, err) :: result.subjectErrors }

/-- The triples of a batch with a subject, in the batch's order. -/
def bySubject (triples : List Triple) (subject : String) : List Triple :=
  triples.filter fun t => t.subject = subject

def distinctSortedSubjects (triples : List Triple) : List String :=
  (triples.map Triple.subject).dedup.insertionSort (· ≤ ·)

/-- How the update closure of a subject stops the loop without a write. -/
inductive ClosureStop
  | notFound
  | noOpAddDuplicate (suppressed : ℕ)
  | contract
deriving DecidableEq

/-- The update closure of `addTriplesLane`: the candidate, and the number of
triples suppressed. -/
def appendClosure (group : List Triple) (now : ℕ) (current : Option EntityState) :
    Except ClosureStop (EntityState × ℕ) :=
  match current with
  | none => .error .notFound
  | some entity =>
    let (survivors, suppressed) := dedupeAppendTriples entity.triples group
    if survivors = [] then .error (.noOpAddDuplicate suppressed)
    else
      let candidate := { entity with
        triples := entity.triples ++ survivors
        version := entity.version + 1
        updatedAt := now }
      if validateEntityStateContract candidate then .ok (candidate, suppressed)
      else .error .contract

def ClosureStop.fate : ClosureStop → SubjectFate
  | .notFound => .notFound
  | .noOpAddDuplicate suppressed => .unchanged suppressed
  | .contract => .failed .contract

/-! ## The request and its reply -/

/-- Why a request is refused as a whole. -/
inductive AppendRejection
  | triplesEmpty
  | contract
  | authority
  | subjectEmpty
  | accounting
deriving DecidableEq

/-- The synthetic entity a group of triples is validated under. -/
def contractRoot (id : String) (triples : List Triple) : EntityState :=
  ⟨id, triples, none, ⟨"", "", ""⟩, 0, 0⟩

def validateCanonicalAppendRequest (triples : List Triple) : Bool :=
  (distinctSortedSubjects triples).all fun subject =>
    validateEntityStateContract (contractRoot subject (bySubject triples subject))

/-- The checks of `handleCanonicalAppend` and `addTriplesLane` before the first
read. -/
def admitAppend (authorizeSubject : String → Bool) (triples : List Triple) :
    Except AppendRejection Unit :=
  match triples with
  | [] => .error .triplesEmpty
  | first :: _ =>
    if !validateCanonicalAppendRequest triples then .error .contract
    else if !triples.all fun t => authorizeSubject t.subject then .error .authority
    else if triples.any fun t => t.subject = "" then .error .subjectEmpty
    else if !validateEntityStateContract (contractRoot first.subject triples) then .error .contract
    else .ok ()

inductive AppendOutcome
  | applied (revision : ℕ)
  | unchanged (revision : ℕ)
  | entityNotFound
  | failed (err : SubjectError)
deriving DecidableEq

structure AppendSubjectResult where
  entityID : String
  outcome : AppendOutcome
deriving DecidableEq

/-- The number of outcomes `validateCanonicalAppendAccounting` finds for a
subject. -/
def AddTriplesResult.outcomes (result : AddTriplesResult) (subject : String) : ℕ :=
  (if subject ∈ result.committedRevisions.map Prod.fst then 1 else 0) +
    (if subject ∈ result.unchangedSubjects then 1 else 0) +
    (if subject ∈ result.notFoundSubjects then 1 else 0) +
    (if subject ∈ result.subjectErrors.map Prod.fst then 1 else 0)

def validateCanonicalAppendAccounting (subjects : List String) (result : AddTriplesResult) : Bool :=
  subjects.all fun subject => result.outcomes subject = 1

/-- What `fetchEntityState` says about a subject: its revision, or why it has
none to give. -/
def fetchRevision (log : KeyedLog String EntityState) (answered : Bool) (subject : String) :
    Except AppendOutcome ℕ :=
  if !answered then .error (.failed .unread)
  else
    match snapshot log subject with
    | none => .error .entityNotFound
    | some (entity, revision) =>
      if validateEntityStateContract entity then .ok revision else .error (.failed .resetRequired)

/-- The outcome `handleCanonicalAppend` reports for a subject; `none` if the
subject lost its outcome. -/
def reportSubject (result : AddTriplesResult) (fetched : Except AppendOutcome ℕ) (subject : String) :
    Option AppendOutcome :=
  match result.committedRevisions.lookup subject with
  | some revision => some (.applied revision)
  | none =>
    if subject ∈ result.notFoundSubjects then some .entityNotFound
    else
      match result.subjectErrors.lookup subject with
      | some err => some (.failed err)
      | none =>
        if subject ∈ result.unchangedSubjects then
          match fetched with
          | .ok revision => some (.unchanged revision)
          | .error outcome => some outcome
        else none

/-! ## A request in progress -/

/-- A request: the subjects still to be committed, what the current attempt of
the first of them read, and the subjects still to be reported. -/
structure AppendCall where
  triples : List Triple
  left : List String
  seen : Option (Snapshot EntityState) := none
  result : AddTriplesResult := {}
  unreported : List String
  results : List AppendSubjectResult := []
  rejected : Option AppendRejection := none

/-- The step a request takes, and how the store answers it. -/
inductive AppendEvent
  | submit (triples : List Triple)
  | read
  | write (now : ℕ) (answer : StoreAnswer)
  | abandon
  | cancel
  | report (answered : Bool)

def submitAppend (authorizeSubject : String → Bool) (triples : List Triple) : AppendCall :=
  match admitAppend authorizeSubject triples with
  | .error reason => { triples, left := [], unreported := [], rejected := some reason }
  | .ok () =>
    { triples, left := distinctSortedSubjects triples, unreported := distinctSortedSubjects triples }

namespace AppendCall

def finish (call : AppendCall) (subject : String) (fate : SubjectFate) : AppendCall :=
  { call with
    left := call.left.tail
    seen := none
    result := call.result.record subject (bySubject call.triples subject).length fate }

/-- The next attempt starts with a read. -/
def retry (call : AppendCall) : AppendCall := { call with seen := none }

def cancelRest (call : AppendCall) : AppendCall :=
  { call with
    left := []
    result := call.left.foldl (fun result subject => result.record subject 0 (.failed .cancelled))
      call.result }

def write (call : AppendCall) (log : KeyedLog String EntityState) (subject : String)
    (seen : Snapshot EntityState) (now : ℕ) (answer : StoreAnswer) :
    KeyedLog String EntityState × AppendCall :=
  match appendClosure (bySubject call.triples subject) now (seen.map Prod.fst) with
  | .error stop => (log, call.finish subject stop.fate)
  | .ok (candidate, suppressed) =>
    if admits log subject seen then
      match answer with
      | .ok =>
        ((subject, some candidate) :: log,
          call.finish subject (.committed (log.length + 1) suppressed))
      | .failed landed => (if landed then (subject, some candidate) :: log else log, call.retry)
    else (log, call.retry)

/-- One more outcome of the reply. -/
def report (call : AppendCall) (log : KeyedLog String EntityState) (answered : Bool)
    (subject : String) (rest : List String) : AppendCall :=
  if validateCanonicalAppendAccounting (distinctSortedSubjects call.triples) call.result then
    match reportSubject call.result (fetchRevision log answered subject) subject with
    | some outcome =>
      { call with unreported := rest, results := call.results ++ [⟨subject, outcome⟩] }
    | none => { call with rejected := some .accounting }
  else { call with rejected := some .accounting }

end AppendCall

/-- One step of a request against the store. -/
def appendStep (authorizeSubject : String → Bool) (log : KeyedLog String EntityState) :
    Option AppendCall → AppendEvent → Option (KeyedLog String EntityState × AppendCall)
  | none, .submit triples => some (log, submitAppend authorizeSubject triples)
  | some call, .read =>
    match call.left, call.seen with
    | subject :: _, none => some (log, { call with seen := some (snapshot log subject) })
    | _, _ => none
  | some call, .write now answer =>
    match call.left, call.seen with
    | subject :: _, some seen => some (call.write log subject seen now answer)
    | _, _ => none
  | some call, .abandon =>
    match call.left with
    | subject :: _ => some (log, call.finish subject (.failed .abandoned))
    | [] => none
  | some call, .cancel =>
    match call.seen with
    | none => some (log, call.cancelRest)
    | some _ => none
  | some call, .report answered =>
    match call.left, call.rejected, call.unreported with
    | [], none, subject :: rest => some (log, call.report log answered subject rest)
    | _, _, _ => none
  | _, _ => none

/-- The store and the requests working on it. -/
structure AppendSystem where
  log : KeyedLog String EntityState
  calls : ℕ → Option AppendCall

namespace AppendSystem

/-- The store before the first request. -/
def start (log : KeyedLog String EntityState) : AppendSystem := ⟨log, fun _ => none⟩

def step (authorizeSubject : String → Bool) (s : AppendSystem) (e : ℕ × AppendEvent) :
    Option AppendSystem :=
  (appendStep authorizeSubject s.log (s.calls e.1) e.2).map fun p =>
    ⟨p.1, Function.update s.calls e.1 (some p.2)⟩

end AppendSystem

/-! ## What a step can do -/

/-- **The steps of a request**, with the store before and after. -/
inductive Appends (authorizeSubject : String → Bool) (log : KeyedLog String EntityState) :
    Option AppendCall → KeyedLog String EntityState → AppendCall → Prop
  | submitted (triples : List Triple) :
    Appends authorizeSubject log none log (submitAppend authorizeSubject triples)
  | read {call : AppendCall} {subject : String} {rest : List String}
    (hleft : call.left = subject :: rest) :
    Appends authorizeSubject log (some call) log { call with seen := some (snapshot log subject) }
  | stopped {call : AppendCall} {subject : String} {rest : List String}
    {seen : Snapshot EntityState} {now : ℕ} {stop : ClosureStop}
    (hleft : call.left = subject :: rest) (hseen : call.seen = some seen)
    (hstop : appendClosure (bySubject call.triples subject) now (seen.map Prod.fst) = .error stop) :
    Appends authorizeSubject log (some call) log (call.finish subject stop.fate)
  | landed {call : AppendCall} {subject : String} {rest : List String}
    {seen : Snapshot EntityState} {now : ℕ} {candidate : EntityState} {suppressed : ℕ}
    (hleft : call.left = subject :: rest) (hseen : call.seen = some seen)
    (hok : appendClosure (bySubject call.triples subject) now (seen.map Prod.fst) =
      .ok (candidate, suppressed))
    (hadmits : admits log subject seen = true) {call' : AppendCall}
    (hcall : call' = call.finish subject (.committed (log.length + 1) suppressed) ∨
      call' = call.retry) :
    Appends authorizeSubject log (some call) ((subject, some candidate) :: log) call'
  | retried {call : AppendCall} : Appends authorizeSubject log (some call) log call.retry
  | abandoned {call : AppendCall} {subject : String} {rest : List String}
    (hleft : call.left = subject :: rest) :
    Appends authorizeSubject log (some call) log (call.finish subject (.failed .abandoned))
  | cancelled {call : AppendCall} : Appends authorizeSubject log (some call) log call.cancelRest
  | reported {call : AppendCall} {subject : String} {rest : List String} (answered : Bool)
    (hleft : call.left = []) (hrejected : call.rejected = none)
    (hunreported : call.unreported = subject :: rest) :
    Appends authorizeSubject log (some call) log (call.report log answered subject rest)

variable {authorizeSubject : String → Bool}

theorem appends_of_appendStep (h : appendStep authorizeSubject log call e = some (log', call')) :
    Appends authorizeSubject log call log' call' := by
  cases call with
  | none =>
    cases e with
    | submit triples => cases h; exact .submitted triples
    | _ => cases h
  | some call =>
    cases e with (simp only [appendStep] at h; try split at h <;> try contradiction)
    | submit triples => cases h
    | read =>
      rename_i hleft hseen
      cases h
      exact .read hleft
    | write now answer =>
      rename_i _ _ _ hleft hseen
      unfold AppendCall.write at h
      split at h
      · rename_i _ hstop
        cases h
        exact .stopped hleft hseen hstop
      · rename_i _ _ hok
        split at h
        · rename_i hadmits
          match answer with
          | .ok => cases h; exact .landed hleft hseen hok hadmits (.inl rfl)
          | .failed true => cases h; exact .landed hleft hseen hok hadmits (.inr rfl)
          | .failed false => cases h; exact .retried
        · cases h
          exact .retried
    | abandon =>
      rename_i hleft
      cases h
      exact .abandoned hleft
    | cancel =>
      cases h
      exact .cancelled
    | report answered =>
      rename_i hleft hrejected hunreported
      cases h
      exact .reported answered hleft hrejected hunreported

/-- A step of the system is a step of one request. -/
theorem AppendSystem.appends_of_step {s s' : AppendSystem} {e : ℕ × AppendEvent}
    (h : s.step authorizeSubject e = some s') :
    ∃ call', Appends authorizeSubject s.log (s.calls e.1) s'.log call' ∧
      s'.calls = Function.update s.calls e.1 (some call') := by
  obtain ⟨⟨_, call'⟩, hstep, rfl⟩ := Option.map_eq_some_iff.1 h
  exact ⟨call', appends_of_appendStep hstep, rfl⟩

/-! ## What the closure stores -/

variable {group : List Triple} {now suppressed : ℕ} {current : Option EntityState}
  {candidate : EntityState} {stop : ClosureStop}

/-- **A candidate is the resident and the new assertions**, and it is valid. -/
theorem appendClosure_ok (h : appendClosure group now current = .ok (candidate, suppressed)) :
    ∃ entity, current = some entity ∧
      candidate.triples = entity.triples ++ (dedupeAppendTriples entity.triples group).1 ∧
      suppressed = (dedupeAppendTriples entity.triples group).2 ∧
      validateEntityStateContract candidate := by
  unfold appendClosure at h
  split at h
  · cases h
  rename_i entity
  refine ⟨entity, rfl, ?_⟩
  simp only at h
  split at h
  · cases h
  split at h
  · rename_i hvalid
    cases h
    exact ⟨rfl, rfl, hvalid⟩
  · cases h

/-- The loop stops as unchanged only on a group that is stored. -/
theorem stored_of_unchanged (h : appendClosure group now current = .error stop)
    (hfate : stop.fate = .unchanged n) :
    n = group.length ∧ ∃ entity, current = some entity ∧
      ∀ t ∈ group, appendIdentityKey t ∈ identityKeys entity.triples := by
  unfold appendClosure at h
  split at h
  · cases h
    cases hfate
  · rename_i entity
    simp only at h
    split at h
    · rename_i hnil
      cases h
      rw [ClosureStop.fate, SubjectFate.unchanged.injEq] at hfate
      have hlen := length_dedupeAppendTriples entity.triples group
      rw [hnil, List.length_nil] at hlen
      refine ⟨by omega, entity, rfl, fun t ht => ?_⟩
      have hmem := @mem_identityKeys_append entity.triples group t ht
      rwa [hnil, List.append_nil] at hmem
    · split at h <;> cases h
      cases hfate

/-! ## What a request has read -/

variable {log log' : KeyedLog String EntityState} {call : Option AppendCall} {call' : AppendCall}

/-- What the current attempt read is not outdated silently. -/
def AppendCall.FreshRead (log : KeyedLog String EntityState) (call : AppendCall) : Prop :=
  ∀ subject rest seen, call.left = subject :: rest → call.seen = some seen → Fresh log subject seen

theorem Appends.log_cases (h : Appends authorizeSubject log call log' call') :
    log' = log ∨ ∃ k candidate, log' = (k, some candidate) :: log ∧
      validateEntityStateContract candidate := by
  cases h with
  | landed hleft hseen hok hadmits _ =>
    obtain ⟨_, -, -, -, hvalid⟩ := appendClosure_ok hok
    exact .inr ⟨_, _, rfl, hvalid⟩
  | _ => exact .inl rfl

variable {c : AppendCall}

theorem AppendCall.FreshRead.of_log (hc : c.FreshRead log)
    (h : Appends authorizeSubject log call log' call') : c.FreshRead log' := by
  rcases h.log_cases with rfl | ⟨k, _, rfl, -⟩
  · exact hc
  · intro subject rest seen hleft hseen
    exact (hc subject rest seen hleft hseen).cons _

theorem AppendCall.freshRead_of_seen (h : c.seen = none) : c.FreshRead log := by
  intro _ _ seen _ hseen
  rw [h] at hseen
  cases hseen

/-- A step leaves its request with a read that is not outdated silently. -/
theorem freshRead_of_appends (h : Appends authorizeSubject log call log' call') :
    call'.FreshRead log' := by
  cases h with
  | submitted triples =>
    refine AppendCall.freshRead_of_seen ?_
    unfold submitAppend
    split <;> rfl
  | read hleft =>
    intro subject' rest' seen hleft' hseen
    rw [hleft, List.cons.injEq] at hleft'
    cases hseen
    exact hleft'.1 ▸ fresh_snapshot log _
  | landed hleft hseen hok hadmits hcall =>
    rcases hcall with rfl | rfl <;> exact AppendCall.freshRead_of_seen rfl
  | cancelled => exact nofun
  | reported answered hleft hrejected hunreported =>
    rename_i c subject rest
    have hkept : (c.report log answered subject rest).left = [] := by
      unfold AppendCall.report
      split
      · split <;> exact hleft
      · exact hleft
    intro subject' rest' seen hleft' _
    rw [hkept] at hleft'
    cases hleft'
  | _ => exact AppendCall.freshRead_of_seen rfl

end SemStreams.GraphIngest
