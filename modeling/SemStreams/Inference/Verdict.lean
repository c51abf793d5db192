import SemStreams.Inference.Anomaly
import SemStreams.Lib.Run
import SemStreams.Lib.Slots
/-!
# inference — who decides about an anomaly

Three kinds of actor decide about one anomaly: the detection run that found it, review workers,
and people through the review endpoint. Each reads the record, may apply the suggested
relationship, and saves the record with a new status.

A worker saves first, comparing the revision, and applies afterwards: of two workers one wins.
The detection run and the endpoint apply first and save blindly. So the verdict is one where
such a verdict is given on a record that is still open and no other comes before it is saved
(`exclusive`).

A save is one step: its index keys are not read here. The endpoint's decoding and its answers,
and failing calls of the storage, are left out.
-/

namespace SemStreams.Inference

open List Option

/-! ## Decisions -/

inductive Decision where
  | approve
  | reject
  | humanReview
deriving DecidableEq

/-- The settings of the three kinds of actor. `print` is how `%.2f` prints. -/
structure Policy where
  autoApproveThreshold : ℚ
  autoRejectThreshold : ℚ
  fallbackToHuman : Bool
  autoApplyEnabled : Bool
  autoApplyMinConfidence : ℚ
  predicateTemplate : String
  reviewQueueEnabled : Bool
  reviewQueueMinConfidence : ℚ
  reviewQueueMaxConfidence : ℚ
  detectorApplier : Bool
  handlerApplier : Bool
  print : ℚ → String

/-- `truncate`, on the bytes of a text. -/
def truncate (text : List Char) (maxLen : ℕ) : List Char :=
  if text.length ≤ maxLen then text else text.take maxLen ++ "...".toList

/-- `parseLLMDecision`, on the bytes of the response. -/
def parseLLMDecision (response : List Char) : Decision × String :=
  if response = [] then (.humanReview, "empty LLM response")
  else if response.take 7 = "APPROVE".toList ∨ response.take 7 = "approve".toList then
    (.approve, if 8 < response.length then String.ofList (response.drop 8) else "LLM approved")
  else if response.take 6 = "REJECT".toList ∨ response.take 6 = "reject".toList then
    (.reject, if 7 < response.length then String.ofList (response.drop 7) else "LLM rejected")
  else (.humanReview, "unclear LLM response: " ++ String.ofList (truncate response 100))

/-- `makeDecision`. There is no response without a client, or where its call fails. -/
def makeDecision (p : Policy) (a : Anomaly) (response : Option (List Char)) : Decision × String :=
  if p.autoApproveThreshold ≤ a.confidence then
    (.approve, "auto-approved: confidence " ++ p.print a.confidence ++ " >= " ++
      p.print p.autoApproveThreshold)
  else if a.confidence ≤ p.autoRejectThreshold then
    (.reject, "auto-rejected: confidence " ++ p.print a.confidence ++ " <= " ++
      p.print p.autoRejectThreshold)
  else
    match response with
    | some response => parseLLMDecision response
    | none =>
      if p.fallbackToHuman then
        (.humanReview, "confidence between thresholds, queued for human review")
      else (.reject, "confidence between thresholds, no LLM or human review configured")

/-! ## Actors -/

inductive Actor where
  | detector
  | worker (i : ℕ)
  | reviewer (i : ℕ)
deriving DecidableEq

inductive HumanDecision where
  | approved
  | rejected
deriving DecidableEq

/-- `ReviewRequest`, its decision valid. -/
structure ReviewRequest where
  decision : HumanDecision
  notes : String
  overridePredicate : String
  targetEntity : String
  reviewedBy : String
deriving DecidableEq

/-- Where an actor is. The detection run has the anomaly to save, or has saved it. A worker took
an entry of the watch; has decided, to save the record at the entry's revision; has claimed
it by saving it as applied. A person's request has read the record. Any of them may have records
to save blindly. -/
inductive Phase where
  | fresh (a : Anomaly)
  | saved (a : Anomaly)
  | took (a : Anomaly) (revision : ℕ)
  | decided (a : Anomaly) (revision : ℕ) (claim : Bool)
  | claimed (a : Anomaly)
  | read (a : Anomaly) (request : ReviewRequest)
  | saving (records : List Anomaly)
deriving DecidableEq

/-- What the environment contributes to a step: the response of the language model, the clock,
whether a call of the applier succeeds, and the text of its error. -/
structure Input where
  response : Option (List Char)
  now : ℤ
  ok : Bool
  error : String
deriving DecidableEq

/-- `markFailed`. -/
def Anomaly.failed (a : Anomaly) (error : String) : Anomaly :=
  { a with
    status := .humanReview
    reviewNotes := "Processing failed: " ++ ("apply failed: " ++ error) }

/-- The revert of a claim whose application failed. -/
def Anomaly.reverted (a : Anomaly) (error : String) : Anomaly :=
  { a with status := .humanReview, reviewNotes := "apply failed after claim: " ++ error }

def noSuggestion : String :=
  "ReviewWorker.applyAndMarkApproved: anomaly has no suggestion to apply failed: " ++
    "missing required configuration"

/-- `handleKVEntry` up to its first call of the storage. -/
def handleKVEntry (p : Policy) (a : Anomaly) (revision : ℕ) (input : Input) : Phase :=
  match makeDecision p a input.response with
  | (.approve, reason) =>
    match a.suggestion with
    | none => .saving [a.failed noSuggestion]
    | some _ =>
      .decided { a with
        status := .applied
        reviewedAt := some input.now
        reviewedBy := "review_worker"
        llmReasoning := reason } revision true
  | (.reject, reason) =>
    .decided { a with
      status := .rejected
      reviewedAt := some input.now
      reviewedBy := "review_worker"
      llmReasoning := reason } revision false
  | (.humanReview, reason) =>
    .decided { a with status := .humanReview, reviewNotes := reason } revision false

/-- The record to save, if any, and whether the relationship was applied before. -/
structure Verdict where
  record : Option Anomaly
  applies : Bool

open Verdict

def Suggestion.override (g : Suggestion) (request : ReviewRequest) : Suggestion :=
  { g with
    toEntity := if request.targetEntity = "" then g.toEntity else request.targetEntity
    predicate := if request.overridePredicate = "" then g.predicate else request.overridePredicate }

/-- `processApproval`. No record where it fails. -/
def processApproval (p : Policy) (a : Anomaly) (request : ReviewRequest) (ok : Bool) : Verdict :=
  match a.suggestion with
  | none => ⟨some { a with status := .approved }, false⟩
  | some g =>
    let g := g.override request
    if g.toEntity = "" then ⟨none, false⟩
    else if p.handlerApplier then
      if ok then ⟨some { a with suggestion := some g, status := .applied }, true⟩
      else ⟨none, false⟩
    else ⟨some { a with suggestion := some g, status := .approved }, false⟩

/-- `handleReviewAnomaly` from the record it has read to its save. -/
def handleReview (p : Policy) (a : Anomaly) (request : ReviewRequest) (input : Input) : Verdict :=
  let a := { a with
    reviewedAt := some input.now
    reviewedBy := if request.reviewedBy = "" then "human" else request.reviewedBy
    reviewNotes := request.notes }
  match request.decision with
  | .approved => processApproval p a request input.ok
  | .rejected => ⟨some { a with status := .rejected }, false⟩

def replaceFirst (old new : List Char) : List Char → List Char
  | [] => []
  | c :: text =>
    if old <+: c :: text then new ++ (c :: text).drop old.length
    else c :: replaceFirst old new text

def buildPredicate (template : String) (confidence : ℚ) : String :=
  let band := if 95 / 100 ≤ confidence then "high" else if 85 / 100 ≤ confidence then "medium"
    else "related"
  String.ofList (replaceFirst "\x7bband\x7d".toList band.toList template.toList)

/-- `applyVirtualEdges` for one anomaly, up to its save. -/
def applyVirtualEdges (p : Policy) (a : Anomaly) (input : Input) : Verdict :=
  if !p.autoApplyEnabled ∨ !p.detectorApplier ∨ a.type ≠ .semanticStructuralGap then ⟨none, false⟩
  else if p.autoApplyMinConfidence ≤ a.confidence then
    if input.ok then
      ⟨some { a with
        status := .autoApplied
        reviewedAt := some input.now
        reviewedBy := "auto"
        suggestion := some ⟨a.entityA, a.entityB,
          buildPredicate p.predicateTemplate a.confidence⟩ }, true⟩
    else ⟨none, false⟩
  else if p.reviewQueueEnabled ∧ p.reviewQueueMinConfidence ≤ a.confidence ∧
      a.confidence < p.reviewQueueMaxConfidence then
    ⟨some { a with status := .humanReview }, false⟩
  else ⟨none, false⟩

/-! ## Steps -/

/-- The stored record with its revision, the entries of the watch, the actors at work, and who
applied the relationship. -/
structure Review where
  record : Option (Anomaly × ℕ)
  entries : List (Anomaly × ℕ)
  lastRevision : ℕ
  actors : AList fun _ : Actor => Phase
  applied : List Actor

/-- The start: the detection run has found the anomaly. -/
def Review.initial (found : Anomaly) : Review where
  record := none
  entries := []
  lastRevision := 0
  actors := AList.insert .detector (.fresh { found with status := .pending }) ∅
  applied := []

/-- What a step of an actor leaves: the record it puts, whether it applied the relationship, and
where the actor is now. -/
structure Move where
  put : Option Anomaly
  applies : Bool
  next : Option Phase

def savingAll : List Anomaly → Option Phase
  | [] => none
  | records => some (.saving records)

/-- **One step of an actor.** -/
def proceed (p : Policy) (record : Option (Anomaly × ℕ)) (phase : Phase) (input : Input) : Move :=
  match phase with
  | .fresh a => ⟨some a, false, some (.saved a)⟩
  | .saved a =>
    let verdict := applyVirtualEdges p a input
    ⟨none, verdict.applies, savingAll verdict.record.toList⟩
  | .took a revision => ⟨none, false, some (handleKVEntry p a revision input)⟩
  | .decided a revision claim =>
    if record.map Prod.snd = some revision then
      ⟨some a, false, if claim then some (.claimed a) else none⟩
    else ⟨none, false, none⟩
  | .claimed a =>
    if input.ok then ⟨none, true, none⟩
    else ⟨none, false, some (.saving [a.reverted input.error, a.failed input.error])⟩
  | .read a request =>
    let verdict := handleReview p a request input
    ⟨none, verdict.applies, savingAll verdict.record.toList⟩
  | .saving [] => ⟨none, false, none⟩
  | .saving (a :: records) => ⟨some a, false, savingAll records⟩

inductive ReviewEvent where
  | take (i : ℕ) (revision : ℕ)
  | request (i : ℕ) (request : ReviewRequest)
  | proceed (x : Actor) (input : Input)
deriving DecidableEq

namespace Review

variable (s : Review)

def put (a : Option Anomaly) : Review :=
  match a with
  | none => s
  | some a =>
    { s with
      record := some (a, s.lastRevision + 1)
      entries := s.entries ++ [(a, s.lastRevision + 1)]
      lastRevision := s.lastRevision + 1 }

def after (x : Actor) (move : Move) : Review :=
  { s.put move.put with
    actors := setSlot s.actors x move.next
    applied := if move.applies then s.applied ++ [x] else s.applied }

end Review

variable (p : Policy)

/-- A step of the three kinds of actor over one anomaly. Any worker may be given any entry of the
watch; a request is refused where there is no record to review. -/
def reviewStep (s : Review) : ReviewEvent → Option Review
  | .take i revision =>
    match s.actors.lookup (.worker i), s.entries.find? fun entry => entry.2 = revision with
    | none, some (a, _) =>
      if a.status = .pending then
        some { s with actors := s.actors.insert (.worker i) (.took a revision) }
      else some s
    | _, _ => none
  | .request i request =>
    match s.actors.lookup (.reviewer i), s.record with
    | some _, _ => none
    | none, none => some s
    | none, some (a, _) =>
      if a.status = .humanReview ∨ a.status = .pending then
        some { s with actors := s.actors.insert (.reviewer i) (.read a request) }
      else some s
  | .proceed x input =>
    (s.actors.lookup x).map fun phase => s.after x (proceed p s.record phase input)

/-- The stored status awaits a verdict, or nothing is stored. -/
def Review.isOpen (s : Review) : Bool :=
  s.record.all fun r => r.1.status = .pending || r.1.status = .humanReview

def Phase.isSaving : Phase → Bool
  | saving _ => true
  | _ => false

/-- No actor is between its verdict and the save of it. -/
def Review.noneSaving (s : Review) : Bool := s.actors.entries.all fun entry => !entry.2.isSaving

/-- The next step decides or saves without comparing a revision. The detection run decides about
gaps only, and a worker compares unless there is nothing to apply. -/
def Phase.unchecked : Phase → Bool
  | fresh _ | read _ _ => true
  | saved a => p.autoApplyEnabled && (p.detectorApplier && a.type = .semanticStructuralGap)
  | took a _ => a.suggestion.isNone
  | _ => false

/-- **Who decides without comparing a revision finds the anomaly open and no actor between its
verdict and its save**; who compares finds no such actor; and calls of the applier succeed. -/
def exclusive (s : Review) : ReviewEvent → Bool
  | .proceed x input =>
    input.ok && (s.actors.lookup x).all fun
      | .decided _ _ _ => s.noneSaving
      | phase => !phase.unchecked p || s.isOpen && s.noneSaving
  | _ => true

/-- No actor is at work. -/
def Review.Quiescent (s : Review) : Prop := ∀ x, s.actors.lookup x = none

/-! ## What a step can do -/

/-- The record has a status of one whose relationship was applied. -/
def Anomaly.marksApplied (a : Anomaly) : Bool :=
  a.status = .applied || a.status = .autoApplied

def Review.marksApplied (s : Review) : Bool := s.record.any fun r => r.1.marksApplied

variable {p} {a : Anomaly} {input : Input}

/-- A verdict that applies leaves a record to save that says so; another leaves none that
does. -/
def Verdict.Honest (v : Verdict) : Prop :=
  (v.applies = true → ∃ a, v.record = some a) ∧
    ∀ a, v.record = some a → a.marksApplied = v.applies

theorem Verdict.honest_none : Verdict.Honest ⟨none, false⟩ := by
  exact ⟨(nomatch ·), fun _ h => nomatch h⟩

theorem Verdict.honest_some {a : Anomaly} {applies : Bool} (h : a.marksApplied = applies) :
    Honest ⟨some a, applies⟩ := by
  refine ⟨fun _ => ⟨a, rfl⟩, fun b hb => ?_⟩
  cases hb
  exact h

variable (request : ReviewRequest)

theorem handleReview_honest : (handleReview p a request input).Honest := by
  unfold handleReview
  dsimp only
  split
  · unfold processApproval
    split
    · exact honest_some rfl
    dsimp only
    split
    · exact honest_none
    split
    · split
      · exact honest_some rfl
      · exact honest_none
    · exact honest_some rfl
  · exact honest_some rfl

theorem applyVirtualEdges_honest : (applyVirtualEdges p a input).Honest := by
  unfold applyVirtualEdges
  split
  · exact honest_none
  split
  · split
    · exact honest_some rfl
    · exact honest_none
  · split
    · exact honest_some rfl
    · exact honest_none

theorem applyVirtualEdges_of_checked (h : (Phase.saved a).unchecked p = false) :
    applyVirtualEdges p a input = ⟨none, false⟩ := by
  refine if_pos ?_
  simpa [Phase.unchecked, imp_iff_not_or] using h

theorem handleKVEntry_spec (p : Policy) (a : Anomaly) (revision : ℕ) (input : Input) :
    (∃ b, handleKVEntry p a revision input = .decided b revision b.marksApplied) ∨
      a.suggestion = none ∧
        ∃ b, handleKVEntry p a revision input = .saving [b] ∧ b.marksApplied = false := by
  unfold handleKVEntry
  split
  · split
    · exact .inr ⟨‹_›, _, rfl, rfl⟩
    · exact .inl ⟨_, rfl⟩
  · exact .inl ⟨_, rfl⟩
  · exact .inl ⟨_, rfl⟩

/-! ## One verdict -/

variable {s : Review} {x : Actor} {revision : ℕ}

/-- A record stored at the revision is pending. -/
def Review.Pends (s : Review) (revision : ℕ) : Prop :=
  revision ≤ s.lastRevision ∧ ∀ r, s.record = some r → r.2 = revision → r.1.status = .pending

/-- The actor has claimed the anomaly, or has a verdict to save. -/
def Phase.holds : Phase → Bool
  | claimed _ | saving _ => true
  | _ => false

/-- What holds of an actor. A worker saw a pending record at its revision, and what it decided on
says whether it claims. While a claim stands, the stored record says so and nobody has applied;
while a verdict is to be saved, the stored record is open, and the verdict says that the
relationship was applied only if the actor applied it. -/
def Phase.Fits (s : Review) (x : Actor) : Phase → Prop
  | fresh a => a.marksApplied = false
  | took _ revision => s.Pends revision
  | decided a revision claim => a.marksApplied = claim ∧ s.Pends revision
  | claimed _ => s.marksApplied = true ∧ s.applied = []
  | saving records =>
    s.isOpen = true ∧ ∃ a, records = [a] ∧ (a.marksApplied = true → x ∈ s.applied)
  | _ => True

/-- **At most one actor has applied the relationship.** It has saved a record that says so, or
will. A record says so only if someone has applied, or has claimed to; and of those who claimed
or have a verdict to save there is one. -/
structure OneVerdict (s : Review) : Prop where
  atMost : s.applied.length ≤ 1
  marked : s.marksApplied = true →
    s.applied ≠ [] ∨ ∃ x a, s.actors.lookup x = some (.claimed a)
  owed : ∀ x ∈ s.applied, s.marksApplied = true ∨
    ∃ a, s.actors.lookup x = some (.saving [a]) ∧ a.marksApplied = true
  fits : ∀ x phase, s.actors.lookup x = some phase → phase.Fits s x
  alone : ∀ x y phase phase', s.actors.lookup x = some phase → s.actors.lookup y = some phase' →
    phase.holds = true → phase'.holds = true → x = y
  logged : ∀ entry ∈ s.entries, entry.2 ≤ s.lastRevision ∧
    ∀ r, s.record = some r → r.2 = entry.2 → r = entry

theorem Review.not_marksApplied_of_isOpen (h : s.isOpen) : s.marksApplied = false := by
  unfold Review.isOpen at h
  unfold Review.marksApplied
  cases hr : s.record with
  | none => rfl
  | some r =>
    rw [hr] at h
    simp only [all_some, Bool.or_eq_true, decide_eq_true_eq] at h
    rcases h with h | h <;> simp [Anomaly.marksApplied, h]

theorem Review.Pends.put (h : s.Pends revision) (a : Option Anomaly) : (s.put a).Pends revision := by
  cases a with
  | none => exact h
  | some a =>
    refine ⟨Nat.le_succ_of_le h.1, ?_⟩
    rintro r ⟨⟩ rfl
    exact absurd h.1 (Nat.not_succ_le_self _)

theorem OneVerdict.logged_put (hs : OneVerdict s) (a : Option Anomaly) :
    ∀ entry ∈ (s.put a).entries, entry.2 ≤ (s.put a).lastRevision ∧
      ∀ r, (s.put a).record = some r → r.2 = entry.2 → r = entry := by
  cases a with
  | none => exact hs.logged
  | some a =>
    intro entry hentry
    rcases mem_append.1 hentry with hold | hnew
    · refine ⟨Nat.le_succ_of_le (hs.logged entry hold).1, ?_⟩
      rintro r ⟨⟩ hrevision
      have hle := (hs.logged entry hold).1
      rw [← hrevision] at hle
      exact absurd hle (Nat.not_succ_le_self _)
    · rw [mem_singleton.1 hnew]
      exact ⟨Nat.le_refl _, by rintro r ⟨⟩ -; rfl⟩

/-- Where the record is open and no verdict waits to be saved, nobody stands in the way. -/
theorem OneVerdict.free (hs : OneVerdict s) (hopen : s.isOpen) (hnone : s.noneSaving)
    (hy : s.actors.lookup y = some phase) : phase.holds = false := by
  have hsaving := all_eq_true.1 hnone _ (AList.mem_lookup_iff.1 hy)
  cases phase with
  | claimed a =>
    have hmarks := (hs.fits y _ hy).1
    rw [Review.not_marksApplied_of_isOpen hopen] at hmarks
    cases hmarks
  | saving records => cases hsaving
  | _ => rfl

theorem OneVerdict.nobody (hs : OneVerdict s) (hopen : s.isOpen) (hnone : s.noneSaving) :
    s.applied = [] := by
  refine eq_nil_iff_forall_not_mem.2 fun y hy => ?_
  rcases hs.owed y hy with hmarks | ⟨a, ha, -⟩
  · rw [Review.not_marksApplied_of_isOpen hopen] at hmarks
    cases hmarks
  · cases hs.free hopen hnone ha

/-- An actor that does not stand in the way goes on, and neither puts nor applies. -/
theorem OneVerdict.goOn {next : Option Phase} (hs : OneVerdict s)
    (hx : ∀ phase, s.actors.lookup x = some phase → phase.holds = false)
    (hnext : ∀ phase, next = some phase → phase.Fits s x ∧ phase.holds = false) :
    OneVerdict (s.after x ⟨none, false, next⟩) := by
  -- what another actor's phase was it still is, and that is every actor that stands in the way
  have hkept : ∀ y phase, phase.holds = true → s.actors.lookup y = some phase →
      (setSlot s.actors x next).lookup y = some phase := by
    intro y phase hholds hy
    refine (lookup_setSlot_ne ?_).trans hy
    rintro rfl
    exact Bool.noConfusion (hholds.symm.trans (hx phase hy))
  have hbefore : ∀ y phase, phase.holds = true →
      (setSlot s.actors x next).lookup y = some phase → s.actors.lookup y = some phase := by
    intro y phase hholds hy
    rcases lookup_setSlot_eq_some hy with ⟨-, hnew⟩ | ⟨-, hold⟩
    · exact Bool.noConfusion (hholds.symm.trans (hnext phase hnew).2)
    · exact hold
  refine ⟨hs.atMost, fun hmarks => ?_, fun y hy => ?_, fun y phase hy => ?_, ?_, hs.logged⟩
  · exact (hs.marked hmarks).imp id fun ⟨y, a, hy⟩ => ⟨y, a, hkept y _ rfl hy⟩
  · exact (hs.owed y hy).imp id fun ⟨a, ha, hmarks⟩ => ⟨a, hkept y _ rfl ha, hmarks⟩
  · have hfits : phase.Fits s y := by
      rcases lookup_setSlot_eq_some hy with ⟨rfl, hphase⟩ | ⟨-, hold⟩
      · exact (hnext phase hphase).1
      · exact hs.fits y phase hold
    cases phase <;> exact hfits
  · intro y z phase phase' hy hz hholds hholds'
    exact hs.alone y z phase phase' (hbefore y _ hholds hy) (hbefore z _ hholds' hz) hholds hholds'

theorem OneVerdict.leaves (hs : OneVerdict s)
    (hx : ∀ phase, s.actors.lookup x = some phase → phase.holds = false) :
    OneVerdict (s.after x ⟨none, false, none⟩) :=
  hs.goOn hx (by rintro _ ⟨⟩)

/-- An actor goes on where no other stands in the way. -/
theorem OneVerdict.moves (hs : OneVerdict s)
    (hfree : ∀ y phase, y ≠ x → s.actors.lookup y = some phase → phase.holds = false)
    (hatMost : (s.after x move).applied.length ≤ 1)
    (hmarked : (s.after x move).marksApplied = true →
      (s.after x move).applied ≠ [] ∨ ∃ a, move.next = some (.claimed a))
    (howed : ∀ y ∈ (s.after x move).applied, (s.after x move).marksApplied = true ∨
      y = x ∧ ∃ a, move.next = some (.saving [a]) ∧ a.marksApplied = true)
    (hnext : ∀ phase, move.next = some phase → phase.Fits (s.after x move) x) :
    OneVerdict (s.after x move) := by
  refine ⟨hatMost, fun hmarks => ?_, fun y hy => ?_, fun y phase hy => ?_, ?_,
    hs.logged_put move.put⟩
  · exact (hmarked hmarks).imp id fun ⟨a, ha⟩ => ⟨x, a, lookup_setSlot_self.trans ha⟩
  · refine (howed y hy).imp id ?_
    rintro ⟨rfl, a, ha, hmarks⟩
    exact ⟨a, lookup_setSlot_self.trans ha, hmarks⟩
  · rcases lookup_setSlot_eq_some hy with ⟨rfl, hphase⟩ | ⟨hyx, hold⟩
    · exact hnext phase hphase
    have hfits := hs.fits y phase hold
    cases phase with
    | took a revision => exact hfits.put _
    | decided a revision claim => exact ⟨hfits.1, hfits.2.put _⟩
    | claimed a | saving records => cases hfree y _ hyx hold
    | _ => exact hfits
  · have honly : ∀ y phase, (setSlot s.actors x move.next).lookup y = some phase →
        phase.holds = true → y = x := by
      intro y phase hy hholds
      rcases lookup_setSlot_eq_some hy with ⟨rfl, -⟩ | ⟨hyx, hold⟩
      · rfl
      · exact Bool.noConfusion (hholds.symm.trans (hfree y phase hyx hold))
    intro y z phase phase' hy hz hholds hholds'
    rw [honly y phase hy hholds, honly z phase' hz hholds']

/-- An actor gives its verdict on an open record, no other verdict waiting to be saved. -/
theorem OneVerdict.verdict (hs : OneVerdict s) (hopen : s.isOpen) (hnone : s.noneSaving)
    {v : Verdict} (hv : v.Honest) :
    OneVerdict (s.after x ⟨none, v.applies, savingAll v.record.toList⟩) := by
  have hnobody := hs.nobody hopen hnone
  obtain ⟨record, applies⟩ := v
  cases record with
  | none =>
    cases applies with
    | false => exact hs.leaves fun _ => hs.free hopen hnone
    | true =>
      obtain ⟨a, ha⟩ := hv.1 rfl
      cases ha
  | some a =>
    have hmarks : a.marksApplied = applies := hv.2 a rfl
    refine hs.moves (fun y phase _ => hs.free hopen hnone) ?_ (fun hmarked => ?_) (fun y hy => .inr ?_) ?_
    · cases applies <;> simp [Review.after, hnobody]
    · exact Bool.noConfusion (hmarked.symm.trans (Review.not_marksApplied_of_isOpen hopen))
    · cases applies with
      | false => simp [Review.after, hnobody, Review.put] at hy
      | true => exact ⟨by simpa [Review.after, hnobody] using hy, a, rfl, hmarks⟩
    · rintro phase ⟨⟩
      refine ⟨hopen, a, rfl, fun happlied => ?_⟩
      simp [Review.after, hmarks.symm.trans happlied]

theorem OneVerdict.initial (found : Anomaly) : OneVerdict (.initial found) := by
  have honly : ∀ x phase, (Review.initial found).actors.lookup x = some phase →
      phase = .fresh { found with status := .pending } := by
    intro x phase h
    by_cases hx : x = .detector
    · subst hx
      exact (Option.some.inj h).symm
    · rw [Review.initial, AList.lookup_insert_ne hx, AList.lookup_empty] at h
      cases h
  refine ⟨Nat.zero_le _, nofun, nofun, fun x phase h => ?_, fun x y phase _ h _ hholds => ?_,
    fun _ h => absurd h not_mem_nil⟩
  · rw [honly x phase h]
    rfl
  · rw [honly x phase h] at hholds
    cases hholds

/-- **A step of an actor keeps the verdict one.** -/
theorem OneVerdict.proceeds (hs : OneVerdict s) {phase : Phase} {input : Input}
    (hx : s.actors.lookup x = some phase) (h : exclusive p s (.proceed x input)) :
    OneVerdict (s.after x (proceed p s.record phase input)) := by
  simp only [exclusive, hx, all_some, Bool.and_eq_true] at h
  obtain ⟨hok, h⟩ := h
  have hfits := hs.fits x phase hx
  have hself : phase.holds = false →
      ∀ phase', s.actors.lookup x = some phase' → phase'.holds = false := by
    intro hholds phase' hx'
    rwa [← Option.some.inj (hx.symm.trans hx')]
  have hothers : phase.holds = true →
      ∀ y phase', y ≠ x → s.actors.lookup y = some phase' → phase'.holds = false := by
    intro hholds y phase' hyx hy
    exact Bool.eq_false_iff.2 fun hholds' => hyx (hs.alone y x _ _ hy hx hholds' hholds)
  cases phase with
  | fresh a =>
    obtain ⟨hopen, hnone⟩ : s.isOpen ∧ s.noneSaving := by simpa [Phase.unchecked] using h
    refine hs.moves (fun y phase _ => hs.free hopen hnone) hs.atMost (fun hmarks => ?_)
      (fun y hy => ?_) ?_
    · exact Bool.noConfusion (hmarks.symm.trans hfits)
    · exact absurd ((hs.nobody hopen hnone) ▸ hy) not_mem_nil
    · rintro phase ⟨⟩
      trivial
  | saved a =>
    simp only [proceed]
    cases hunchecked : (Phase.saved a).unchecked p with
    | false =>
      rw [applyVirtualEdges_of_checked hunchecked]
      exact hs.leaves (hself rfl)
    | true =>
      obtain ⟨hopen, hnone⟩ : s.isOpen ∧ s.noneSaving := by simpa [hunchecked] using h
      exact hs.verdict hopen hnone applyVirtualEdges_honest
  | took a revision =>
    simp only [proceed]
    rcases handleKVEntry_spec p a revision input with ⟨b, hb⟩ | ⟨hsuggestion, b, hb, hmarks⟩
    · rw [hb]
      refine hs.goOn (hself rfl) ?_
      rintro phase ⟨⟩
      exact ⟨⟨rfl, hfits⟩, rfl⟩
    · obtain ⟨hopen, hnone⟩ : s.isOpen ∧ s.noneSaving := by
        simpa [Phase.unchecked, hsuggestion] using h
      rw [hb]
      exact hs.verdict hopen hnone (v := ⟨some b, false⟩) (honest_some hmarks)
  | decided a revision claim =>
    simp only [proceed]
    split
    · next hrevision =>
      -- the stored record is the pending one the worker took
      obtain ⟨r, hr, rfl⟩ := map_eq_some_iff.1 hrevision
      have hopen : s.isOpen := by simp [Review.isOpen, hr, hfits.2.2 r hr rfl]
      have hnobody := hs.nobody hopen h
      refine hs.moves (fun y phase _ => hs.free hopen h) hs.atMost (fun hmarks => .inr ?_)
        (fun y hy => ?_) fun phase hphase => ?_
      · have hclaim : claim := hfits.1.symm.trans hmarks
        exact ⟨a, if_pos hclaim⟩
      · exact absurd (hnobody ▸ hy) not_mem_nil
      · obtain ⟨hclaim, ⟨⟩⟩ := ite_none_right_eq_some.1 hphase
        exact ⟨hfits.1.trans hclaim, hnobody⟩
    · exact hs.leaves (hself rfl)
  | claimed a =>
    obtain ⟨hmarks, hnobody⟩ := hfits
    simp only [proceed, hok, if_true]
    refine hs.moves (hothers rfl) ?_ (fun _ => .inl ?_) (fun _ _ => .inl hmarks) (by rintro _ ⟨⟩)
    · simp [Review.after, hnobody]
    · simp [Review.after]
  | read a request =>
    obtain ⟨hopen, hnone⟩ : s.isOpen ∧ s.noneSaving := by simpa [Phase.unchecked] using h
    exact hs.verdict hopen hnone (handleReview_honest request)
  | saving records =>
    obtain ⟨hopen, a, rfl, happlied⟩ := hfits
    refine hs.moves (hothers rfl) hs.atMost (fun hmarks => .inl ?_) (fun y hy => .inl ?_)
      (by rintro _ ⟨⟩)
    · exact ne_nil_of_mem (happlied hmarks)
    · rcases hs.owed y hy with hmarks | ⟨b, hb, hbmarks⟩
      · exact Bool.noConfusion (hmarks.symm.trans (Review.not_marksApplied_of_isOpen hopen))
      · obtain rfl := hs.alone y x _ _ hb hx rfl rfl
        obtain ⟨⟩ := hb.symm.trans hx
        exact hbmarks

theorem OneVerdict.step (s : Review) (e : ReviewEvent) (s' : Review) (hs : OneVerdict s)
    (hexclusive : exclusive p s e) (h : reviewStep p s e = some s') : OneVerdict s' := by
  cases e with
  | take i revision =>
    simp only [reviewStep] at h
    split at h
    · next a _ hx hfind =>
      obtain rfl : _ = revision := by simpa using find?_some hfind
      split at h <;> cases h
      · next hpending =>
        refine @OneVerdict.goOn _ _ (some _) hs (fun _ h => nomatch hx.symm.trans h) ?_
        rintro phase ⟨⟩
        obtain ⟨hle, honly⟩ := hs.logged _ (mem_of_find?_eq_some hfind)
        exact ⟨⟨hle, fun r hr hrevision => honly r hr hrevision ▸ hpending⟩, rfl⟩
      · exact hs
    · cases h
  | request i request =>
    simp only [reviewStep] at h
    split at h
    · cases h
    · cases h
      exact hs
    · next a _ hx hrecord =>
      split at h <;> cases h
      · refine @OneVerdict.goOn _ _ (some _) hs (fun _ h => nomatch hx.symm.trans h) ?_
        rintro phase ⟨⟩
        exact ⟨trivial, rfl⟩
      · exact hs
  | proceed x input =>
    obtain ⟨phase, hphase, rfl⟩ := map_eq_some_iff.1 h
    exact hs.proceeds hphase hexclusive

/-- **An anomaly has one verdict** in every run in which who decides without comparing a revision
finds it open and nobody is let in before the verdict is saved: at most one actor applies the
relationship, and once no actor is at work, one has if the stored status says so, and none has if
it is rejected. -/
theorem one_verdict (p : Policy) (found : Anomaly) {es : List ReviewEvent} {s : Review}
    (hexclusive : Along (reviewStep p) (fun s e => exclusive p s e = true) (.initial found) es)
    (h : run (reviewStep p) (.initial found) es = some s) :
    s.applied.length ≤ 1 ∧
    (s.Quiescent → ∀ a revision, s.record = some (a, revision) →
      (a.status = .applied ∨ a.status = .autoApplied → s.applied ≠ []) ∧
      (a.status = .rejected → s.applied = [])) := by
  have hs : OneVerdict s := run_invariant_along OneVerdict.step (.initial found) hexclusive h
  refine ⟨hs.atMost, fun hquiet a revision hrecord => ⟨fun hstatus => ?_, fun hstatus => ?_⟩⟩
  · have hmarks : s.marksApplied = true := by
      simpa [Review.marksApplied, hrecord, Anomaly.marksApplied] using hstatus
    rcases hs.marked hmarks with happlied | ⟨x, b, hx⟩
    · exact happlied
    · rw [hquiet x] at hx
      cases hx
  · refine eq_nil_iff_forall_not_mem.2 fun x hx => ?_
    rcases hs.owed x hx with hmarks | ⟨b, hb, -⟩
    · simp [Review.marksApplied, hrecord, Anomaly.marksApplied, hstatus] at hmarks
    · rw [hquiet x] at hb
      cases hb

/-! ## Runs -/

/-- Workers approve at 0.9, the detection run applies at 0.8. -/
def twoAppliers : Policy where
  autoApproveThreshold := 9 / 10
  autoRejectThreshold := 3 / 10
  fallbackToHuman := true
  autoApplyEnabled := true
  autoApplyMinConfidence := 8 / 10
  predicateTemplate := "inferred.semantic.\x7bband\x7d"
  reviewQueueEnabled := true
  reviewQueueMinConfidence := 5 / 10
  reviewQueueMaxConfidence := 8 / 10
  detectorApplier := true
  handlerApplier := true
  print _ := ""

theorem isToken_g : IsToken "g" := by decide

/-- An anomaly of some type, found with some confidence. -/
def finding (type : AnomalyType) (confidence : ℚ) : Anomaly where
  id := ⟨"g", isToken_g⟩
  type := type
  entityA := "a"
  entityB := "b"
  confidence := confidence
  suggestion := some ⟨"a", "b", "inferred.related_to"⟩
  status := .pending
  detectedAt := 5
  reviewedAt := none
  reviewedBy := ""
  llmReasoning := ""
  reviewNotes := ""

/-- Calls succeed, and nothing answers the language model's prompt. -/
def calm : Input := ⟨none, 6, true, ""⟩

/-- The anomaly is stored; a worker claims and applies it; then the detection run goes on. -/
def workerFirst : List ReviewEvent :=
  [.proceed .detector calm, .take 0 1, .proceed (.worker 0) calm, .proceed (.worker 0) calm,
    .proceed (.worker 0) calm, .proceed .detector calm]

/-- Two workers are given the stored anomaly; one claims it, and the other's save is refused. -/
def twoWorkers : List ReviewEvent :=
  [.proceed .detector calm, .take 0 1, .take 1 1, .proceed (.worker 0) calm,
    .proceed (.worker 1) calm, .proceed (.worker 0) calm, .proceed (.worker 1) calm,
    .proceed .detector calm, .proceed (.worker 0) calm]

theorem one_verdict_isolation :
    ∃ s, run (reviewStep twoAppliers) (.initial (finding .coreIsolation 1)) twoWorkers = some s ∧
      s.Quiescent ∧ s.applied = [.worker 0] ∧ s.applied.length ≤ 1 := by
  refine exists_end (P := fun s => s.actors.entries = [] ∧ s.applied = [.worker 0])
    (by decide +kernel) ?_
  rintro s hrun ⟨hrest, hs⟩
  refine ⟨fun x => ?_, hs, ?_⟩
  · rw [(AList.ext hrest : s.actors = ∅), AList.lookup_empty]
  · exact (one_verdict twoAppliers (finding .coreIsolation 1) (by decide +kernel) hrun).1

def humanApproves : ReviewRequest := ⟨.approved, "", "", "", ""⟩

def humanRejects : ReviewRequest := ⟨.rejected, "", "", "", ""⟩

/-- Two people read the record the detection run queued; one approves, the other rejects. -/
def twoPeople : List ReviewEvent :=
  [.proceed .detector calm, .proceed .detector calm, .proceed .detector calm,
    .request 0 humanApproves, .request 1 humanRejects, .proceed (.reviewer 0) calm,
    .proceed (.reviewer 0) calm, .proceed (.reviewer 1) calm, .proceed (.reviewer 1) calm]

/-- **The relationship is applied twice**, by a worker and the detection run; **and an anomaly
is stored as rejected though its relationship was applied**. -/
theorem two_verdicts :
    (∃ s, run (reviewStep twoAppliers) (.initial (finding .semanticStructuralGap 1))
      (workerFirst ++ [.proceed .detector calm]) = some s ∧
      s.applied = [.worker 0, .detector]) ∧
    ∃ s a revision, run (reviewStep twoAppliers) (.initial (finding .semanticStructuralGap (6 / 10)))
      twoPeople = some s ∧ s.Quiescent ∧ s.record = some (a, revision) ∧ a.status = .rejected ∧
      s.applied = [.reviewer 0] := by
  constructor
  · decide +kernel
  · obtain ⟨s, hrun, hrest, ⟨⟨a, revision⟩, hrecord, hstatus⟩, hs⟩ : ∃ s, run (reviewStep twoAppliers)
        (.initial (finding .semanticStructuralGap (6 / 10))) twoPeople = some s ∧
        s.actors.entries = [] ∧ (∃ r, s.record = some r ∧ r.1.status = .rejected) ∧
        s.applied = [.reviewer 0] := by decide +kernel
    refine ⟨s, a, revision, hrun, fun x => ?_, hrecord, hstatus, hs⟩
    rw [(AList.ext hrest : s.actors = ∅), AList.lookup_empty]

end SemStreams.Inference
