import SemStreams.Lib.Run
import SemStreams.Lib.Bucket
import Mathlib.Data.List.Nodup
/-!
# agentic-loop — the names of a loop's requests

Every request to the model has a name: the iteration it belongs to and the
ordinal of the truncation retry within it. The name is minted from the loop in
memory, the request is published under it, the loop is stamped with it, and
the loop record is written last, from memory and under compare-and-swap. A
crash between any two of these calls leaves a record that is behind the stream;
the next cold delivery adopts the newest retained request into the record and
rebuilds the loop from the two.

The model is one loop and one process at a time. The response, tool-result and
approval lanes are served one delivery at a time each, side by side; a handler
is a sequence of steps, one for each call that another lane or a crash can
come before.

`request_identity` is the result. A record written while another lane is
between `IncrementIteration` and the stamp of the request it mints counts an
iteration for which it names no request.
-/

namespace SemStreams.AgenticLoop

open List Function Option

namespace LoopRequest

/-! ## Names -/

/-- `looprequest.ID`, for one loop. -/
structure RequestID where
  iteration : ℕ
  retry : ℕ
deriving DecidableEq, Repr

namespace RequestID

/-- `looprequest.Next`. -/
def next (prev : RequestID) (retry : Bool) : RequestID :=
  if retry then ⟨prev.iteration, prev.retry + 1⟩ else ⟨prev.iteration + 1, 0⟩

/-- `looprequest.Compare`. -/
def compare (a b : RequestID) : Ordering :=
  if a.iteration < b.iteration then .lt
  else if a.iteration > b.iteration then .gt
  else if a.retry < b.retry then .lt
  else if a.retry > b.retry then .gt
  else .eq

instance : LT RequestID := ⟨fun a b => a.compare b = .lt⟩

instance : LE RequestID := ⟨fun a b => a.compare b ≠ .gt⟩

instance (a b : RequestID) : Decidable (a < b) := inferInstanceAs (Decidable (a.compare b = .lt))

instance (a b : RequestID) : Decidable (a ≤ b) := inferInstanceAs (Decidable (a.compare b ≠ .gt))

variable {a b : RequestID}

theorem lt_iff :
    a < b ↔ a.iteration < b.iteration ∨ a.iteration = b.iteration ∧ a.retry < b.retry := by
  show a.compare b = .lt ↔ _
  unfold compare
  split_ifs <;> simp <;> omega

theorem le_iff :
    a ≤ b ↔ a.iteration < b.iteration ∨ a.iteration = b.iteration ∧ a.retry ≤ b.retry := by
  show a.compare b ≠ .gt ↔ _
  unfold compare
  split_ifs <;> simp <;> omega

theorem le_refl (a : RequestID) : a ≤ a := by
  rw [le_iff]
  omega

theorem le_trans (hab : a ≤ b) (hbc : b ≤ c) : a ≤ c := by
  rw [le_iff] at *
  omega

theorem lt_trans (hab : a < b) (hbc : b < c) : a < c := by
  rw [lt_iff] at *
  omega

theorem le_of_lt (h : a < b) : a ≤ b := by
  rw [lt_iff] at h
  rw [le_iff]
  omega

theorem ne_of_lt (h : a < b) : a ≠ b := by
  rintro rfl
  rw [lt_iff] at h
  omega

theorem lt_of_not_lt_of_ne (h : ¬ a < b) (hne : b ≠ a) : b < a := by
  rw [lt_iff] at *
  have hretry : a.iteration = b.iteration → a.retry ≠ b.retry := by
    intro hi hr
    apply hne
    cases a
    cases b
    simp only [mk.injEq]
    exact ⟨hi.symm, hr.symm⟩
  omega

def first : RequestID := ⟨1, 0⟩

end RequestID

/-! ## The loop, the record and the stream -/

/-- Who has the turn. -/
inductive Phase
  /-- a request is tracked and its answer not taken -/
  | asking (request : RequestID)
  /-- a handler has taken an answer, or the last result of a batch -/
  | handling
  /-- the calls of a batch are out -/
  | batch
  /-- the iteration is incremented, the next request not yet tracked -/
  | advanced
deriving DecidableEq

/-- The loop in the memory of the process: `Iterations`, `PublishedRequestID`,
who has the turn, and the record revision observed. -/
structure LoopMemory where
  iterations : ℕ
  published : RequestID
  phase : Phase
  observed : ℕ
deriving DecidableEq

/-- The two fields of the record the identity rests on. -/
structure LoopRecord where
  iterations : ℕ
  published : RequestID
deriving DecidableEq

/-- The lanes that carry a handler's result. -/
inductive CarrierLane
  | response
  | tool
  | approval
deriving DecidableEq

/-- The next call of a handler and of the carrier behind it. -/
inductive CarrierPc
  | idle
  /-- `HandleModelResponse` has the answer to the outstanding request -/
  | deciding
  /-- the calls of a new batch are to be published -/
  | calling
  /-- a further call of a batch is to be published -/
  | relaying
  /-- `IncrementIteration` -/
  | advancing
  /-- `GenerateRequestID` and `TrackRequest` -/
  | minting
  /-- `adoptRetainedRequest` -/
  | checking (minted : RequestID)
  | sending (minted : RequestID)
  /-- `stampPublishedRequest` -/
  | stamping (minted : RequestID)
  /-- `writeLoopRecord` -/
  | writing
deriving DecidableEq

/-- The task lane, on the first request of a loop. -/
inductive TaskPc
  | idle
  /-- `createLoopState` -/
  | creating
  | checking
  | sending
deriving DecidableEq

structure Identity where
  /-- the retained requests with their contents, oldest first -/
  requests : List (RequestID × String)
  record : Option LoopRecord
  revision : ℕ
  memory : Option LoopMemory
  task : TaskPc
  lanes : CarrierLane → CarrierPc

/-- What `HandleModelResponse` does with an answer. -/
inductive NextMove
  | call
  | advance
  | retry

inductive IdentityEvent
  /-- `HandleTask` on a task whose loop has no record -/
  | birth
  /-- `taskRepublishFirstRequest` -/
  | republish
  | task (content : String) (answer : StoreAnswer)
  | takeResponse
  | decide (move : NextMove)
  | takeResult (last : Bool)
  /-- `last` for a rejection that completes the batch -/
  | takeApproval (last : Bool)
  /-- the handler or carrier on a lane makes its next call -/
  | carry (lane : CarrierLane) (content : String) (answer : StoreAnswer)
  /-- `persistDeferredContinuationMarker` -/
  | mark (answer : StoreAnswer)
  /-- `adoptNewerRetainedRequest`, in a cold delivery -/
  | adoptNewer (answer : StoreAnswer)
  /-- `restoreLoopFromEvidence`, for a response or for a tool result -/
  | restore (batch : Bool)
  | release
  | crash

def generateRequestID : Option LoopMemory → RequestID
  | none => ⟨1, 0⟩
  | some m =>
    if m.published.iteration = m.iterations + 1 then m.published.next true
    else ⟨m.iterations + 1, 0⟩

/-- The answers of `adoptRetainedRequest`. -/
inductive Adoption
  | publish
  | adopt
  | refuse

def adoptRetainedRequest (retained : Option RequestID) (minted : RequestID) : Adoption :=
  match retained with
  | none => .publish
  | some newest => if newest = minted then .adopt else if minted < newest then .refuse else .publish

namespace Identity

variable (s : Identity)

def names : List RequestID := s.requests.map Prod.fst

/-- `readRetainedAgentRequest`. -/
def newest : Option RequestID := s.names.getLast?

/-- The handler on the lane has `pc` before it. -/
def moveTo (lane : CarrierLane) (pc : CarrierPc) : Identity :=
  { s with lanes := update s.lanes lane pc }

def hold (m : LoopMemory) : Identity := { s with memory := some m }

/-- `releaseLoopTransientState`. -/
def releaseLoop : Identity := { s with memory := none }

def writeRecord (r : LoopRecord) : Identity :=
  { s with record := some r, revision := s.revision + 1 }

def publish (name : RequestID) (content : String) : Identity :=
  { s with requests := s.requests ++ [(name, content)] }

/-- The calls of a batch are out. -/
def openBatch : Identity :=
  { s with memory := s.memory.map fun m =>
      if m.phase = .handling then { m with phase := .batch } else m }

def trackRequest (request : RequestID) : Identity :=
  { s with memory := s.memory.map fun m => { m with phase := .asking request } }

/-- `writeLoopRecord`: the live entity is rendered and written against the
revision observed. A lost compare-and-swap releases the loop. -/
def writeLoopRecord (answer : StoreAnswer) : Identity :=
  match s.memory with
  | none => s
  | some m =>
    if s.record = none ∨ m.observed ≠ s.revision then s.releaseLoop
    else
      match answer with
      | .ok =>
        (s.writeRecord ⟨m.iterations, m.published⟩).hold { m with observed := s.revision + 1 }
      | .failed landed => if landed then s.writeRecord ⟨m.iterations, m.published⟩ else s

/-- One call of the handler or carrier on a lane. A publish that fails may have
landed; the delivery is over either way. -/
def carry (lane : CarrierLane) (content : String) (answer : StoreAnswer) :
    CarrierPc → Option Identity
  | .idle => none
  | .deciding => none
  | .calling =>
    match answer with
    | .ok => some (s.openBatch.moveTo lane .writing)
    | .failed landed => some ((if landed then s.openBatch else s).moveTo lane .idle)
  | .relaying =>
    match answer with
    | .ok => some (s.moveTo lane .writing)
    | .failed _ => some (s.moveTo lane .idle)
  | .advancing =>
    match s.memory with
    | none => some (s.moveTo lane .idle)
    | some m =>
      some ((s.hold { m with iterations := m.iterations + 1, phase := .advanced }).moveTo lane
        .minting)
  | .minting =>
    let minted := generateRequestID s.memory
    some ((s.trackRequest minted).moveTo lane (.checking minted))
  | .checking minted =>
    match adoptRetainedRequest s.newest minted with
    | .publish => some (s.moveTo lane (.sending minted))
    | .adopt => some (s.moveTo lane (.stamping minted))
    | .refuse => some (s.moveTo lane .idle)
  | .sending minted =>
    match answer with
    | .ok => some ((s.publish minted content).moveTo lane (.stamping minted))
    | .failed landed => some ((if landed then s.publish minted content else s).moveTo lane .idle)
  | .stamping minted =>
    match s.memory with
    | none => some (s.moveTo lane .idle)
    | some m => some ((s.hold { m with published := minted }).moveTo lane .writing)
  | .writing => some ((s.writeLoopRecord answer).moveTo lane .idle)

/-- One call of the task lane, on the first request. An error releases the
loop. -/
def taskCall (content : String) (answer : StoreAnswer) : TaskPc → Option Identity
  | .idle => none
  | .creating =>
    match s.memory, s.record with
    | some m, none =>
      match answer with
      | .ok =>
        some { (s.writeRecord ⟨m.iterations, m.published⟩).hold
          { m with observed := s.revision + 1 } with task := .checking }
      | .failed landed =>
        some { (if landed then s.writeRecord ⟨m.iterations, m.published⟩ else s).releaseLoop with
          task := .idle }
    | _, _ => some { s.releaseLoop with task := .idle }
  | .checking =>
    match adoptRetainedRequest s.newest .first with
    | .publish => some { s with task := .sending }
    | .adopt => some { s with task := .idle }
    | .refuse => some { s.releaseLoop with task := .idle }
  | .sending =>
    match answer with
    | .ok => some { s.publish .first content with task := .idle }
    | .failed landed =>
      some { (if landed then s.publish .first content else s).releaseLoop with task := .idle }

/-- `persistDeferredContinuationMarker`: the marker is laid over the record as
it is read, the rest of it stays. -/
def persistDeferredContinuationMarker (answer : StoreAnswer) : Option Identity :=
  match s.memory, s.record with
  | some m, some r =>
    if m.observed ≠ s.revision then some s.releaseLoop
    else
      match answer with
      | .ok => some ((s.writeRecord r).hold { m with observed := s.revision + 1 })
      | .failed landed => some (if landed then s.writeRecord r else s)
  | _, _ => none

/-- `adoptNewerRetainedRequest`. The revision written is not remembered. -/
def adoptNewerRetainedRequest (answer : StoreAnswer) : Option Identity :=
  match s.record, s.newest with
  | some r, some retained =>
    if r.published < retained then
      match answer with
      | .failed false => some s
      | _ => some (s.writeRecord ⟨retained.iteration - 1, retained⟩)
    else some s
  | _, _ => none

def restoreLoopFromEvidence (batch : Bool) : Option Identity :=
  match s.memory, s.record with
  | none, some r =>
    if s.newest = some r.published then
      some (s.hold ⟨r.iterations, r.published, if batch then .batch else .asking r.published,
        s.revision⟩)
    else none
  | _, _ => none

/-- What becomes of a call of the batch; the last one advances the loop. -/
def takeOutcome (lane : CarrierLane) (last : Bool) : Option Identity :=
  match s.memory with
  | some m =>
    if s.lanes lane = .idle ∧ m.phase = .batch then
      if last then some ((s.hold { m with phase := .handling }).moveTo lane .advancing)
      else some (s.moveTo lane .relaying)
    else none
  | none => none

/-- No loop, no record, nothing published. -/
def initial : Identity where
  requests := []
  record := none
  revision := 0
  memory := none
  task := .idle
  lanes := fun _ => .idle

end Identity

/-- The loop as `HandleTask` makes it: the first request is stamped as it is
minted. -/
def bornMemory (observed : ℕ) : LoopMemory := ⟨0, .first, .asking .first, observed⟩

open Identity in
/-- One call of a lane, or a step of its surroundings. -/
def identityStep (s : Identity) : IdentityEvent → Option Identity
  | .birth =>
    if s.task = .idle ∧ s.memory = none ∧ s.record = none then
      some { s.hold (bornMemory s.revision) with task := .creating }
    else none
  | .republish =>
    if s.task = .idle ∧ s.memory = none ∧ s.record = some ⟨0, .first⟩ ∧ s.newest = none then
      some { s.hold (bornMemory s.revision) with task := .checking }
    else none
  | .task content answer => s.taskCall content answer s.task
  | .takeResponse =>
    match s.memory with
    | some m =>
      -- only a published request is answered, and only the one the loop is
      -- stamped with is taken
      if s.lanes .response = .idle ∧ m.phase = .asking m.published ∧ m.published ∈ s.names then
        some ((s.hold { m with phase := .handling }).moveTo .response .deciding)
      else none
    | none => none
  | .decide move =>
    if s.lanes .response = .deciding then
      match move with
      | .call => some (s.moveTo .response .calling)
      | .advance => some (s.moveTo .response .advancing)
      | .retry => some (s.moveTo .response .minting)
    else none
  | .takeResult last => s.takeOutcome .tool last
  | .takeApproval last => s.takeOutcome .approval last
  | .carry lane content answer => s.carry lane content answer (s.lanes lane)
  | .mark answer => s.persistDeferredContinuationMarker answer
  | .adoptNewer answer => s.adoptNewerRetainedRequest answer
  | .restore batch => s.restoreLoopFromEvidence batch
  | .release => some s.releaseLoop
  | .crash => some { s.releaseLoop with task := .idle, lanes := fun _ => .idle }

/-! ## What holds between two calls -/

/-- The handler at this call has the turn of the loop. -/
def CarrierPc.holds : CarrierPc → Bool
  | .idle => false
  | .relaying => false
  | .writing => false
  | _ => true

/-- The iteration is incremented and its request not yet stamped. -/
def LoopMemory.unfinished (m : LoopMemory) : Bool :=
  match m.phase with
  | .advanced => true
  | .asking request => request.iteration ≠ m.published.iteration
  | _ => false

/-- The condition on a step: the record is not written from memory while an
advance is unfinished, and the loop is not rebuilt under a handler at work. -/
def Unbroken (s : Identity) : IdentityEvent → Prop
  | .carry lane _ _ => s.lanes lane = .writing → ∀ m, s.memory = some m → m.unfinished = false
  | .restore _ => ∀ lane, (s.lanes lane).holds = false
  | _ => True

/-- The memory of the loop agrees with the place of the handler. -/
def Turn (m : LoopMemory) : CarrierPc → Prop
  | .deciding => m.phase = .handling
  | .calling => m.phase = .handling
  | .advancing => m.phase = .handling
  | .minting => m.phase = .handling ∨ m.phase = .advanced
  | .checking n => m.phase = .asking n ∧ m.published < n ∧ n.iteration = m.iterations + 1
  | .sending n => m.phase = .asking n ∧ m.published < n ∧ n.iteration = m.iterations + 1
  | .stamping n => m.phase = .asking n ∧ m.published < n ∧ n.iteration = m.iterations + 1
  | _ => True

/-- And so does the stream: what is about to be sent is new, what is about to
be stamped is published. -/
def Backed (names : List RequestID) : CarrierPc → Prop
  | .checking n => 1 ≤ n.iteration
  | .sending n => 1 ≤ n.iteration ∧ ∀ x ∈ names, x < n
  | .stamping n => n ∈ names
  | _ => True

structure LaneOk (s : Identity) (pc : CarrierPc) : Prop where
  turn : ∀ m, s.memory = some m → Turn m pc
  backed : Backed s.names pc
  active : pc.holds = true → s.names ≠ []

/-- The name is retained, or it is the first one and nothing is published. -/
def Known (names : List RequestID) (n : RequestID) : Prop :=
  n ∈ names ∨ names = [] ∧ n = .first

structure MemoryOk (s : Identity) (m : LoopMemory) : Prop where
  counted : m.iterations + 1 = m.published.iteration ∨
    m.iterations = m.published.iteration ∧ m.unfinished = true
  known : Known s.names m.published
  -- before the first request is out, the loop asks for it
  active : m.phase = .asking .first ∨ s.names ≠ []
  observed_le : m.observed ≤ s.revision
  -- a record this process wrote last is not ahead of it
  ahead : m.observed = s.revision → ∀ r, s.record = some r → r.published ≤ m.published

structure Sound (s : Identity) : Prop where
  record : ∀ r, s.record = some r →
    r.iterations + 1 = r.published.iteration ∧ Known s.names r.published
  recorded : s.names ≠ [] → s.record ≠ none
  sorted : s.names.Pairwise (· < ·)
  positive : ∀ n ∈ s.names, 1 ≤ n.iteration
  memory : ∀ m, s.memory = some m → MemoryOk s m

def TaskOk (s : Identity) : TaskPc → Prop
  | .idle => True
  | .creating => s.record = none ∧
    ∀ m, s.memory = some m → m.iterations = 0 ∧ m.published = .first
  | .checking => s.record ≠ none
  | .sending => s.record ≠ none ∧ s.names = []

/-- **The identity of the loop**: record, stream and memory agree, and at most
one handler has the turn. -/
structure Identified (s : Identity) : Prop where
  sound : Sound s
  task : TaskOk s s.task
  lanes : ∀ lane, LaneOk s (s.lanes lane)
  alone : ∀ lane lane', (s.lanes lane).holds = true → (s.lanes lane').holds = true → lane = lane'

variable {s : Identity} {m : LoopMemory} {r : LoopRecord} {n : RequestID}

theorem Known.append (h : Known names n)
    (hfirst : names = [] → minted = .first) : Known (names ++ [minted]) n := by
  rcases h with hmem | ⟨hnil, hn⟩
  · exact .inl (mem_append_left _ hmem)
  · refine .inl (mem_append_right _ ?_)
    rw [hn, ← hfirst hnil]
    exact mem_singleton_self _

@[simp] theorem names_publish (s : Identity) (n : RequestID) (content : String) :
    (s.publish n content).names = s.names ++ [n] := by
  simp [Identity.publish, Identity.names]

/-- The pcs of the lanes play no part in it. -/
theorem Sound.moved (h : Sound s) (lanes : CarrierLane → CarrierPc) (task : TaskPc) :
    Sound { s with lanes := lanes, task := task } :=
  { h with memory := fun m hm => { h.memory m hm with } }

theorem sound_releaseLoop (h : Sound s) : Sound s.releaseLoop :=
  { h with memory := nofun }

theorem sound_hold (h : Sound s) (hm : MemoryOk s m) : Sound (s.hold m) := by
  refine { h with memory := ?_ }
  rintro _ ⟨⟩
  exact { hm with }

theorem sound_writeRecord (h : Sound s) (hcount : r.iterations + 1 = r.published.iteration)
    (hknown : Known s.names r.published) : Sound (s.writeRecord r) := by
  refine ⟨?_, fun _ => nofun, h.sorted, h.positive, ?_⟩
  · rintro _ ⟨⟩
    exact ⟨hcount, hknown⟩
  · -- no process has observed the new revision yet
    intro m hm
    have hm := h.memory m hm
    refine { hm with observed_le := Nat.le_succ_of_le hm.observed_le, ahead := ?_ }
    intro hobs
    exact absurd (hobs ▸ hm.observed_le) (Nat.not_succ_le_self _)

theorem sound_rewrite (h : Sound s) (hmem : s.memory = some m)
    (hcount : r.iterations + 1 = r.published.iteration) (hknown : Known s.names r.published)
    (hle : r.published ≤ m.published) :
    Sound ((s.writeRecord r).hold { m with observed := s.revision + 1 }) := by
  have hm := h.memory m hmem
  refine sound_hold (sound_writeRecord h hcount hknown)
    ⟨hm.counted, hm.known, hm.active, Nat.le_refl _, ?_⟩
  rintro - _ ⟨⟩
  exact hle

theorem sound_publish (h : Sound s) (hnew : ∀ x ∈ s.names, x < n)
    (hpos : 1 ≤ n.iteration) (hrec : s.record ≠ none) (hfirst : s.names = [] → n = .first) :
    Sound (s.publish n content) := by
  constructor
  · intro r hr
    rw [names_publish]
    exact ⟨(h.record r hr).1, (h.record r hr).2.append hfirst⟩
  · exact fun _ => hrec
  · rw [names_publish, pairwise_append]
    refine ⟨h.sorted, pairwise_singleton _ _, ?_⟩
    intro x hx y hy
    rw [mem_singleton] at hy
    exact hy ▸ hnew x hx
  · intro x hx
    rw [names_publish, mem_append, mem_singleton] at hx
    rcases hx with hx | rfl
    · exact h.positive x hx
    · exact hpos
  · intro m hm
    have hm := h.memory m hm
    refine { hm with known := ?_, active := .inr ?_ }
    · rw [names_publish]
      exact hm.known.append hfirst
    · simp

variable {t : Identity} {lane : CarrierLane} {pc : CarrierPc}

theorem mem_of_newest (h : s.newest = some n) : n ∈ s.names := mem_of_getLast? h

/-- What `adoptRetainedRequest` tells: a name to publish is new, a name to
adopt is retained. -/
theorem adoptRetainedRequest_spec (hsorted : s.names.Pairwise (· < ·)) (n : RequestID) :
    match adoptRetainedRequest s.newest n with
    | .publish => ∀ x ∈ s.names, x < n
    | .adopt => n ∈ s.names
    | .refuse => s.names ≠ [] := by
  unfold adoptRetainedRequest
  cases hnew : s.newest with
  | none =>
    have hnil : s.names = [] := List.getLast?_eq_none_iff.1 hnew
    intro x hx
    rw [hnil] at hx
    cases hx
  | some last =>
    have hmem := mem_of_newest hnew
    dsimp only
    by_cases heq : last = n
    · rw [if_pos heq]
      exact heq ▸ hmem
    · rw [if_neg heq]
      by_cases hlt : n < last
      · rw [if_pos hlt]
        exact ne_nil_of_mem hmem
      · rw [if_neg hlt]
        have hlt := RequestID.lt_of_not_lt_of_ne hlt heq
        obtain ⟨_, hinit⟩ := List.getLast?_eq_some_iff.1 hnew
        rw [hinit, pairwise_append] at hsorted
        intro x hx
        rw [hinit, mem_append, mem_singleton] at hx
        rcases hx with hx | rfl
        · exact RequestID.lt_trans (hsorted.2.2 x hx last (mem_singleton_self _)) hlt
        · exact hlt

/-- A handler without the turn relies on nothing. -/
theorem laneOk_of_not_holds (h : pc.holds = false) : LaneOk s pc := by
  cases pc with
  | idle | relaying | writing => exact ⟨fun _ _ => trivial, trivial, nofun⟩
  | _ => cases h

/-- While calls are out, or the stamped request is, no handler has the turn. -/
theorem not_holds_of_phase (h : LaneOk s pc) (hmem : s.memory = some m)
    (hphase : m.phase = .batch ∨ m.phase = .asking m.published) : pc.holds = false := by
  have hturn := h.turn m hmem
  -- a minted name is past the stamped one
  have hasking : ∀ n, ¬ (m.phase = .asking n ∧ m.published < n ∧ n.iteration = m.iterations + 1) := by
    rintro n ⟨hp, hlt, -⟩
    rcases hphase with hb | ha
    · rw [hb] at hp
      cases hp
    · rw [ha, Phase.asking.injEq] at hp
      exact RequestID.ne_of_lt hlt hp
  cases pc with
  | idle | relaying | writing => rfl
  | checking n | sending n | stamping n => exact absurd hturn (hasking n)
  | deciding | calling | advancing => simp_all [Turn]
  | minting => rcases hphase with hp | hp <;> simp [Turn, hp] at hturn

variable {task : TaskPc}

/-- The task lane looks at whether there is a record, and before that at the
loop it made. -/
theorem taskOk_frame (h : TaskOk s task) (hrecord : t.record = none ↔ s.record = none)
    (hnames : t.names = s.names)
    (hmemory : s.record = none → ∀ m, t.memory = some m → s.memory = some m) : TaskOk t task := by
  cases task with
  | idle => trivial
  | creating => exact ⟨hrecord.2 h.1, fun m hm => h.2 m (hmemory h.1 m hm)⟩
  | checking => exact fun hnone => h (hrecord.1 hnone)
  | sending => exact ⟨fun hnone => h.1 (hrecord.1 hnone), hnames.trans h.2⟩

theorem taskOk_of_recorded (h : TaskOk s task) (hs : s.record ≠ none) (ht : t.record ≠ none)
    (hnames : t.names = s.names) : TaskOk t task :=
  taskOk_frame h ⟨fun hnone => absurd hnone ht, fun hnone => absurd hnone hs⟩ hnames
    fun hnone => absurd hnone hs

/-- Once a request is out, the task lane can only look for it. -/
theorem taskOk_of_active (hs : Sound s) (h : TaskOk s task) (hactive : s.names ≠ [])
    (hrecord : t.record ≠ none) : TaskOk t task := by
  cases task with
  | idle => trivial
  | creating => exact absurd h.1 (hs.recorded hactive)
  | checking => exact hrecord
  | sending => exact absurd h.2 hactive

theorem Identified.at_lane (h : Identified s) (hpc : s.lanes lane = pc) : LaneOk s pc :=
  hpc ▸ h.lanes lane

theorem Identified.others (h : Identified s) (hlane : (s.lanes lane).holds) :
    ∀ l, l ≠ lane → (s.lanes l).holds = false := by
  intro l hl
  cases hholds : (s.lanes l).holds with
  | false => rfl
  | true => exact absurd (h.alone l lane hholds hlane) hl

/-- A step of one lane, in a state reached from `s` without moving another. -/
theorem identified_moveTo (h : Identified s) (hlanes : t.lanes = s.lanes) (hsound : Sound t)
    (htask : TaskOk t t.task) (hat : LaneOk t pc) (hothers : ∀ l, l ≠ lane → LaneOk t (s.lanes l))
    (halone : pc.holds → ∀ l, l ≠ lane → (s.lanes l).holds = false) :
    Identified (t.moveTo lane pc) := by
  have hother : ∀ l, l ≠ lane → (t.moveTo lane pc).lanes l = s.lanes l := by
    intro l hl
    rw [← hlanes]
    exact update_of_ne hl _ _
  have hself : (t.moveTo lane pc).lanes lane = pc := update_self _ _ _
  refine ⟨hsound.moved _ _, ?_, ?_, ?_⟩
  · exact taskOk_frame htask Iff.rfl rfl fun _ _ hm => hm
  · intro l
    by_cases hl : l = lane
    · rw [hl, hself]
      exact { hat with }
    · rw [hother l hl]
      exact { hothers l hl with }
  · intro l l' hl hl'
    by_cases h₁ : l = lane <;> by_cases h₂ : l' = lane
    · rw [h₁, h₂]
    · rw [h₁, hself] at hl
      rw [hother l' h₂, halone hl l' h₂] at hl'
      cases hl'
    · rw [h₂, hself] at hl'
      rw [hother l h₁, halone hl' l h₁] at hl
      cases hl
    · rw [hother l h₁] at hl
      rw [hother l' h₂] at hl'
      exact h.alone l l' hl hl'

/-- The case of a handler that had the turn, or takes it where none has it. -/
theorem identified_turn (h : Identified s) (hlanes : t.lanes = s.lanes) (hsound : Sound t)
    (htask : TaskOk t t.task) (hat : LaneOk t pc)
    (hothers : ∀ l, l ≠ lane → (s.lanes l).holds = false) : Identified (t.moveTo lane pc) :=
  identified_moveTo h hlanes hsound htask hat (fun l hl => laneOk_of_not_holds (hothers l hl))
    fun _ => hothers

variable {s' : Identity} {content : String} {answer : StoreAnswer}

theorem MemoryOk.count (h : MemoryOk s m) (hfin : m.unfinished = false) :
    m.iterations + 1 = m.published.iteration := by
  rcases h.counted with hc | ⟨-, hun⟩
  · exact hc
  · rw [hfin] at hun
    cases hun

theorem memoryOk_phase (h : MemoryOk s m) (hfin : m.unfinished = false) (hactive : s.names ≠ [])
    (phase : Phase) : MemoryOk s { m with phase := phase } :=
  ⟨.inl (h.count hfin), h.known, .inr hactive, h.observed_le, h.ahead⟩

theorem unfinished_of_handling (h : m.phase = .handling) : m.unfinished = false := by
  unfold LoopMemory.unfinished
  rw [h]

/-- **A minted name is the next one**, of the iteration memory is at. -/
theorem generateRequestID_spec (h : MemoryOk s m) : m.published < generateRequestID (some m) ∧
      (generateRequestID (some m)).iteration = m.iterations + 1 := by
  unfold generateRequestID RequestID.next
  dsimp only
  rw [RequestID.lt_iff]
  rcases h.counted with hc | ⟨hc, -⟩
  · rw [if_pos hc.symm]
    exact ⟨.inr ⟨rfl, Nat.lt_succ_self _⟩, hc.symm⟩
  · rw [if_neg (by omega)]
    dsimp only
    omega

/-- A step of the handler that has the turn, the record left alone. -/
theorem Identified.turn_step (h : Identified s) (hpc : s.lanes lane = pc)
    (hholds : pc.holds) (hlanes : t.lanes = s.lanes) (htask : t.task = s.task)
    (hrecord : t.record = s.record) (hsound : Sound t) (hat : LaneOk t pc') :
    Identified (t.moveTo lane pc') := by
  have hactive := (h.at_lane hpc).active hholds
  refine identified_turn h hlanes hsound ?_ hat (h.others (hpc ▸ hholds))
  rw [htask]
  exact taskOk_of_active h.sound h.task hactive (hrecord ▸ h.sound.recorded hactive)

theorem identified_calling (h : Identified s) (hpc : s.lanes lane = .calling)
    (hidle : pc.holds = false) : Identified (s.openBatch.moveTo lane pc) := by
  have hok := h.at_lane hpc
  refine h.turn_step hpc rfl rfl rfl rfl ?_ (laneOk_of_not_holds hidle)
  refine { h.sound with memory := ?_ }
  intro _ hm'
  obtain ⟨m, hm, rfl⟩ := map_eq_some_iff.1 hm'
  have hphase : m.phase = .handling := hok.turn m hm
  rw [if_pos hphase]
  exact { memoryOk_phase (h.sound.memory m hm) (unfinished_of_handling hphase) (hok.active rfl)
    .batch with }

theorem identified_advancing (h : Identified s) (hpc : s.lanes lane = .advancing)
    (hmem : s.memory = some m) :
    Identified ((s.hold { m with iterations := m.iterations + 1, phase := .advanced }).moveTo lane
      .minting) := by
  have hok := h.at_lane hpc
  have hm := h.sound.memory m hmem
  have hcount := hm.count (unfinished_of_handling (hok.turn m hmem))
  refine h.turn_step hpc rfl rfl rfl rfl (sound_hold h.sound ?_) ⟨?_, trivial, fun _ => hok.active rfl⟩
  · exact ⟨.inr ⟨hcount, rfl⟩, hm.known, .inr (hok.active rfl), hm.observed_le, hm.ahead⟩
  · rintro _ ⟨⟩
    exact .inr rfl

theorem identified_minting (h : Identified s) (hpc : s.lanes lane = .minting) :
    Identified ((s.trackRequest (generateRequestID s.memory)).moveTo lane
      (.checking (generateRequestID s.memory))) := by
  have hactive := (h.at_lane hpc).active rfl
  refine h.turn_step hpc rfl rfl rfl rfl ?_ ⟨?_, ?_, fun _ => hactive⟩
  · refine { h.sound with memory := ?_ }
    intro m' hm'
    obtain ⟨m, hm, rfl⟩ := map_eq_some_iff.1 hm'
    have hok := h.sound.memory m hm
    obtain ⟨-, hiter⟩ := generateRequestID_spec hok
    refine { hok with counted := ?_, active := .inr hactive }
    rcases hok.counted with hc | ⟨hc, -⟩
    · exact .inl hc
    -- the tracked name is of the iteration that was just begun
    refine .inr ⟨hc, ?_⟩
    rw [← hm] at hiter
    have hne : (generateRequestID s.memory).iteration ≠ m.published.iteration := by omega
    exact decide_eq_true hne
  · intro m' hm'
    obtain ⟨m, hm, rfl⟩ := map_eq_some_iff.1 hm'
    obtain ⟨hlt, hiter⟩ := generateRequestID_spec (h.sound.memory m hm)
    rw [hm]
    exact ⟨rfl, hlt, hiter⟩
  · show 1 ≤ (generateRequestID s.memory).iteration
    cases hm : s.memory with
    | none => exact Nat.le_refl 1
    | some m =>
      rw [(generateRequestID_spec (h.sound.memory m hm)).2]
      exact Nat.succ_le_succ (Nat.zero_le _)

theorem identified_sent (h : Identified s) (hpc : s.lanes lane = .sending n) :
    Identified ((s.publish n content).moveTo lane (.stamping n)) ∧
      Identified ((s.publish n content).moveTo lane .idle) := by
  have hok := h.at_lane hpc
  have hactive := hok.active rfl
  have hsound : Sound (s.publish n content) :=
    sound_publish h.sound hok.backed.2 hok.backed.1 (h.sound.recorded hactive)
      fun hnil => absurd hnil hactive
  constructor
  · refine h.turn_step hpc rfl rfl rfl rfl hsound ⟨hok.turn, ?_, fun _ => ?_⟩
    · show n ∈ (s.publish n content).names
      simp
    · simp
  · exact h.turn_step hpc rfl rfl rfl rfl hsound (laneOk_of_not_holds rfl)

/-- A step that moves no lane: memory may be released or see a newer revision,
but stays what the handlers rely on. -/
theorem Identified.frame (h : Identified s) (hlanes : t.lanes = s.lanes)
    (htask : TaskOk t t.task) (hnames : t.names = s.names) (hsound : Sound t)
    (hmemory : ∀ m, t.memory = some m → ∃ m₀, s.memory = some m₀ ∧
      m.phase = m₀.phase ∧ m.published = m₀.published ∧ m.iterations = m₀.iterations) :
    Identified t := by
  refine ⟨hsound, htask, ?_, hlanes ▸ h.alone⟩
  intro lane
  have hl := h.lanes lane
  rw [hlanes]
  refine ⟨?_, hnames ▸ hl.backed, hnames ▸ hl.active⟩
  intro m hm
  obtain ⟨m₀, hm₀, hphase, hpub, hiter⟩ := hmemory m hm
  have hturn := hl.turn m₀ hm₀
  cases hpc : s.lanes lane <;> rw [hpc] at hturn <;> simp only [Turn] at hturn ⊢ <;>
    first | trivial | (rw [hphase, hpub, hiter]; exact hturn) | (rw [hphase]; exact hturn)

/-- A handler that gives up the turn, or never had it. -/
theorem Identified.rest (h : Identified s) (hidle : pc.holds = false) :
    Identified (s.moveTo lane pc) := by
  refine identified_moveTo h rfl h.sound h.task (laneOk_of_not_holds hidle)
    (fun l _ => h.lanes l) ?_
  rw [hidle]
  exact nofun

/-- No handler has the turn. -/
theorem identified_quiet (hquiet : ∀ l, (t.lanes l).holds = false) (hsound : Sound t)
    (htask : TaskOk t t.task) : Identified t := by
  refine ⟨hsound, htask, fun l => laneOk_of_not_holds (hquiet l), ?_⟩
  intro l _ hl
  rw [hquiet l] at hl
  cases hl

/-- Before the first request is out no handler is at work. -/
theorem Identified.quiet (h : Identified s) (hnil : s.names = []) (l : CarrierLane) :
    (s.lanes l).holds = false := by
  cases hholds : (s.lanes l).holds with
  | false => rfl
  | true => exact absurd hnil ((h.lanes l).active hholds)

theorem identified_releaseLoop (h : Identified s) : Identified s.releaseLoop :=
  h.frame rfl (taskOk_frame h.task Iff.rfl rfl fun _ _ => nofun) rfl (sound_releaseLoop h.sound) nofun

theorem identified_writeRecord (h : Identified s) (hrecord : s.record ≠ none)
    (hcount : r.iterations + 1 = r.published.iteration) (hknown : Known s.names r.published) :
    Identified (s.writeRecord r) :=
  h.frame rfl (taskOk_of_recorded h.task hrecord nofun rfl) rfl
    (sound_writeRecord h.sound hcount hknown) fun m hm => ⟨m, hm, rfl, rfl, rfl⟩

theorem identified_rewrite (h : Identified s) (hmem : s.memory = some m)
    (hrecord : s.record ≠ none) (hcount : r.iterations + 1 = r.published.iteration)
    (hknown : Known s.names r.published) (hle : r.published ≤ m.published) :
    Identified ((s.writeRecord r).hold { m with observed := s.revision + 1 }) := by
  refine h.frame rfl (taskOk_of_recorded h.task hrecord nofun rfl) rfl
    (sound_rewrite h.sound hmem hcount hknown hle) ?_
  rintro _ ⟨⟩
  exact ⟨m, hmem, rfl, rfl, rfl⟩

/-- **The record is written from a memory whose advances are finished.** -/
theorem identified_writing (h : Identified s)
    (hfin : ∀ m, s.memory = some m → m.unfinished = false) :
    Identified (s.writeLoopRecord answer) := by
  unfold Identity.writeLoopRecord
  cases hmem : s.memory with
  | none => exact h
  | some m =>
    have hm := h.sound.memory m hmem
    have hcount := hm.count (hfin m hmem)
    dsimp only
    split_ifs with hcas
    · exact identified_releaseLoop h
    push Not at hcas
    cases answer with
    | ok => exact identified_rewrite h hmem hcas.1 hcount hm.known (RequestID.le_refl _)
    | failed landed =>
      cases landed with
      | true => exact identified_writeRecord h hcas.1 hcount hm.known
      | false => exact h

/-- **One call on a lane keeps the identity.** -/
theorem identified_carry (h : Identified s)
    (hfin : s.lanes lane = .writing → ∀ m, s.memory = some m → m.unfinished = false)
    (hstep : s.carry lane content answer (s.lanes lane) = some s') : Identified s' := by
  generalize hpc : s.lanes lane = pc at hstep
  cases pc with
  | idle | deciding => cases hstep
  | calling =>
    cases answer with (cases hstep)
    | ok => exact identified_calling h hpc rfl
    | failed landed =>
      cases landed with
      | true => exact identified_calling h hpc rfl
      | false => exact h.rest rfl
  | relaying => cases answer <;> cases hstep <;> exact h.rest rfl
  | advancing =>
    simp only [Identity.carry] at hstep
    split at hstep
    · cases hstep
      exact h.rest rfl
    · rename_i m hmem
      cases hstep
      exact identified_advancing h hpc hmem
  | minting =>
    cases hstep
    exact identified_minting h hpc
  | checking n =>
    have hok := h.at_lane hpc
    have hactive := hok.active rfl
    have hspec := adoptRetainedRequest_spec h.sound.sorted n
    simp only [Identity.carry] at hstep
    split at hstep <;> rename_i hadopt <;> rw [hadopt] at hspec <;>
      rw [Option.some.injEq] at hstep <;> rw [← hstep] <;>
      refine h.turn_step hpc rfl rfl rfl rfl h.sound ?_
    · exact ⟨hok.turn, ⟨hok.backed, hspec⟩, fun _ => hactive⟩
    · exact ⟨hok.turn, hspec, fun _ => hactive⟩
    · exact laneOk_of_not_holds rfl
  | sending n =>
    cases answer with (cases hstep)
    | ok => exact (identified_sent h hpc).1
    | failed landed =>
      cases landed with
      | true => exact (identified_sent h hpc).2
      | false => exact h.rest rfl
  | stamping n =>
    simp only [Identity.carry] at hstep
    split at hstep
    · cases hstep
      exact h.rest rfl
    · rename_i m hmem
      cases hstep
      have hok := h.at_lane hpc
      obtain ⟨-, hlt, hiter⟩ := hok.turn m hmem
      have hm := h.sound.memory m hmem
      refine h.turn_step hpc rfl rfl rfl rfl (sound_hold h.sound ?_)
        (laneOk_of_not_holds rfl)
      refine ⟨.inl hiter.symm, .inl hok.backed, .inr (ne_nil_of_mem hok.backed), hm.observed_le, ?_⟩
      intro hobs r hr
      exact RequestID.le_trans (hm.ahead hobs r hr) (RequestID.le_of_lt hlt)
  | writing =>
    cases hstep
    exact (identified_writing h (hfin hpc)).rest rfl

/-! ## The task lane and the cold deliveries -/

theorem Identified.taskIdle (h : Identified s) : Identified { s with task := .idle } :=
  h.frame rfl trivial rfl (h.sound.moved _ _) fun m hm => ⟨m, hm, rfl, rfl, rfl⟩

theorem memoryOk_born (hnil : s.names = [])
    (hrecord : ∀ r, s.record = some r → r.published = .first) :
    MemoryOk s (bornMemory s.revision) := by
  refine ⟨.inl rfl, .inr ⟨hnil, rfl⟩, .inl rfl, Nat.le_refl _, ?_⟩
  intro _ r hr
  rw [hrecord r hr]
  exact RequestID.le_refl _

theorem identified_creating (h : Identified s) (htask : s.task = .creating)
    (hstep : s.taskCall content answer .creating = some s') : Identified s' := by
  have hok := h.task
  rw [htask] at hok
  obtain ⟨hnone, hborn⟩ := hok
  have hnil : s.names = [] := not_imp_not.1 h.sound.recorded hnone
  simp only [Identity.taskCall] at hstep
  split at hstep
  · rename_i m hmem _
    obtain ⟨hiter, hpub⟩ := hborn m hmem
    have hcount : m.iterations + 1 = m.published.iteration := by
      rw [hiter, hpub]
      rfl
    have hknown := (h.sound.memory m hmem).known
    cases answer with (cases hstep)
    | ok =>
      refine identified_quiet (h.quiet hnil) ?_ nofun
      exact (sound_rewrite (r := ⟨m.iterations, m.published⟩) h.sound hmem hcount hknown
        (RequestID.le_refl _)).moved _ _
    | failed landed =>
      cases landed with
      | false => exact (identified_releaseLoop h).taskIdle
      | true =>
        refine identified_quiet (h.quiet hnil) ?_ trivial
        exact (sound_releaseLoop (sound_writeRecord (r := ⟨m.iterations, m.published⟩) h.sound
          hcount hknown)).moved _ _
  · cases hstep
    exact (identified_releaseLoop h).taskIdle

theorem identified_taskChecking (h : Identified s) (htask : s.task = .checking)
    (hstep : s.taskCall content answer .checking = some s') : Identified s' := by
  have hok := h.task
  rw [htask] at hok
  have hspec := adoptRetainedRequest_spec h.sound.sorted .first
  simp only [Identity.taskCall] at hstep
  split at hstep <;> rename_i hadopt <;> rw [hadopt] at hspec <;>
    rw [Option.some.injEq] at hstep <;> rw [← hstep]
  · refine h.frame rfl ⟨hok, ?_⟩ rfl (h.sound.moved _ _)
      fun m hm => ⟨m, hm, rfl, rfl, rfl⟩
    -- no name is before the first
    refine eq_nil_iff_forall_not_mem.2 fun x hx => ?_
    have hlt := hspec x hx
    have hpos := h.sound.positive x hx
    rw [RequestID.lt_iff] at hlt
    simp only [RequestID.first] at hlt
    omega
  · exact h.taskIdle
  · exact (identified_releaseLoop h).taskIdle

theorem identified_taskSending (h : Identified s) (htask : s.task = .sending)
    (hstep : s.taskCall content answer .sending = some s') : Identified s' := by
  have hok := h.task
  rw [htask] at hok
  obtain ⟨hrecord, hnil⟩ := hok
  have hsound : Sound (s.publish .first content) := by
    refine sound_publish h.sound ?_ (Nat.le_refl 1) hrecord fun _ => rfl
    rw [hnil]
    exact nofun
  cases answer with (cases hstep)
  | ok => exact identified_quiet (h.quiet hnil) (hsound.moved _ _) trivial
  | failed landed =>
    cases landed with
    | false => exact (identified_releaseLoop h).taskIdle
    | true =>
      exact identified_quiet (h.quiet hnil) ((sound_releaseLoop hsound).moved _ _)
        trivial

theorem identified_taskCall (h : Identified s)
    (hstep : s.taskCall content answer s.task = some s') : Identified s' := by
  cases htask : s.task with
  | idle =>
    rw [htask] at hstep
    cases hstep
  | creating => exact identified_creating h htask (htask ▸ hstep)
  | checking => exact identified_taskChecking h htask (htask ▸ hstep)
  | sending => exact identified_taskSending h htask (htask ▸ hstep)

theorem identified_mark (h : Identified s)
    (hstep : s.persistDeferredContinuationMarker answer = some s') : Identified s' := by
  unfold Identity.persistDeferredContinuationMarker at hstep
  split at hstep
  · rename_i m r hmem hrec
    obtain ⟨hcount, hknown⟩ := h.sound.record r hrec
    have hsome : s.record ≠ none := by
      rw [hrec]
      exact nofun
    split_ifs at hstep with hobs
    · cases hstep
      exact identified_releaseLoop h
    · rw [not_not] at hobs
      have hle := (h.sound.memory m hmem).ahead hobs r hrec
      cases answer with (cases hstep)
      | ok => exact identified_rewrite h hmem hsome hcount hknown hle
      | failed landed =>
        cases landed with
        | false => exact h
        | true => exact identified_writeRecord h hsome hcount hknown
  · cases hstep

theorem identified_adoptNewer (h : Identified s)
    (hstep : s.adoptNewerRetainedRequest answer = some s') : Identified s' := by
  unfold Identity.adoptNewerRetainedRequest at hstep
  split at hstep
  · rename_i r retained _ hnewest
    have hmem := mem_of_newest hnewest
    have hpos := h.sound.positive retained hmem
    have hwrite : Identified (s.writeRecord ⟨retained.iteration - 1, retained⟩) :=
      identified_writeRecord h (h.sound.recorded (ne_nil_of_mem hmem))
        (Nat.sub_add_cancel hpos) (.inl hmem)
    split_ifs at hstep
    · split at hstep <;> cases hstep
      · exact h
      · exact hwrite
    · cases hstep
      exact h
  · cases hstep

/-- The rebuilt loop is the record's, and the record is the stream's. -/
theorem identified_restore (h : Identified s) (hquiet : ∀ lane, (s.lanes lane).holds = false)
    (hstep : s.restoreLoopFromEvidence batch = some s') : Identified s' := by
  unfold Identity.restoreLoopFromEvidence at hstep
  split at hstep
  · rename_i r _ hrec
    obtain ⟨hnewest, hstep⟩ := ite_none_right_eq_some.1 hstep
    rw [← Option.some.inj hstep]
    have hmem := mem_of_newest hnewest
    have hcount := (h.sound.record r hrec).1
    have hsome : s.record ≠ none := by
      rw [hrec]
      exact nofun
    refine identified_quiet hquiet (sound_hold h.sound ?_)
      (taskOk_of_recorded h.task hsome hsome rfl)
    refine ⟨.inl hcount, .inl hmem, .inr (ne_nil_of_mem hmem), Nat.le_refl _, ?_⟩
    intro _ _ hr'
    rw [hrec, Option.some.injEq] at hr'
    exact hr' ▸ RequestID.le_refl _
  · cases hstep

theorem identified_take (h : Identified s) (hmem : s.memory = some m)
    (hphase : m.phase = .batch ∨ m.phase = .asking m.published) (hactive : s.names ≠ [])
    (hturn : Turn { m with phase := .handling } pc) (hbacked : Backed s.names pc) :
    Identified ((s.hold { m with phase := .handling }).moveTo lane pc) := by
  have hfin : m.unfinished = false := by
    unfold LoopMemory.unfinished
    rcases hphase with hp | hp <;> simp [hp]
  have hm := memoryOk_phase (h.sound.memory m hmem) hfin hactive .handling
  refine identified_turn h rfl (sound_hold h.sound hm) ?_ ⟨?_, hbacked, fun _ => hactive⟩
    fun l _ => not_holds_of_phase (h.lanes l) hmem hphase
  · exact taskOk_of_recorded h.task (h.sound.recorded hactive) (h.sound.recorded hactive) rfl
  · rintro _ ⟨⟩
    exact hturn

theorem identified_takeOutcome (h : Identified s)
    (hstep : s.takeOutcome lane last = some s') : Identified s' := by
  unfold Identity.takeOutcome at hstep
  split at hstep
  · next m hmem =>
    split_ifs at hstep with hguard hlast <;> cases hstep
    · refine identified_take h hmem (.inl hguard.2) ?_ rfl trivial
      refine (h.sound.memory m hmem).active.resolve_left ?_
      rw [hguard.2]
      exact nofun
    · exact h.rest rfl
  · cases hstep

/-- The task lane makes the loop anew, before its first request is out. -/
theorem identified_born (h : Identified s) (hnil : s.names = [])
    (hrecord : ∀ r, s.record = some r → r.published = .first)
    (htask : TaskOk { s.hold (bornMemory s.revision) with task := task } task) :
    Identified { s.hold (bornMemory s.revision) with task := task } :=
  identified_quiet (h.quiet hnil)
    ((sound_hold h.sound (memoryOk_born hnil hrecord)).moved _ _) htask

/-- **One step keeps the identity.** -/
theorem identified_step (h : Identified s) (hunbroken : Unbroken s e)
    (hstep : identityStep s e = some s') : Identified s' := by
  cases e with
      (simp only [identityStep] at hstep; (try split at hstep <;> try contradiction); try cases hstep)
  | birth =>
    rename_i hguard
    obtain ⟨-, -, hnone⟩ := hguard
    have hnil : s.names = [] := not_imp_not.1 h.sound.recorded hnone
    refine identified_born h hnil (by rw [hnone]; exact nofun) ⟨hnone, ?_⟩
    rintro _ ⟨⟩
    exact ⟨rfl, rfl⟩
  | republish =>
    rename_i hguard
    obtain ⟨-, -, hrec, hnewest⟩ := hguard
    refine identified_born h (List.getLast?_eq_none_iff.1 hnewest) ?_ ?_
    · rw [hrec]
      rintro _ ⟨⟩
      rfl
    · show s.record ≠ none
      rw [hrec]
      exact nofun
  | task content answer => exact identified_taskCall h hstep
  | takeResponse =>
    rename_i m hmem
    split_ifs at hstep with hguard
    cases hstep
    obtain ⟨-, hphase, hpublished⟩ := hguard
    exact identified_take h hmem (.inr hphase) (ne_nil_of_mem hpublished) rfl trivial
  | decide move =>
    rename_i hpc
    have hok := h.at_lane hpc
    have hactive := hok.active rfl
    cases move <;> cases hstep <;> refine h.turn_step hpc rfl rfl rfl rfl h.sound ?_
    · exact ⟨hok.turn, trivial, fun _ => hactive⟩
    · exact ⟨hok.turn, trivial, fun _ => hactive⟩
    · exact ⟨fun m hm => .inl (hok.turn m hm), trivial, fun _ => hactive⟩
  | takeResult | takeApproval => exact identified_takeOutcome h hstep
  | carry lane content answer => exact identified_carry h hunbroken hstep
  | mark answer => exact identified_mark h hstep
  | adoptNewer answer => exact identified_adoptNewer h hstep
  | restore batch => exact identified_restore h hunbroken hstep
  | release => exact identified_releaseLoop h
  | crash => exact identified_quiet (fun _ => rfl) ((sound_releaseLoop h.sound).moved _ _) trivial

/-! ## The record never goes back -/

/-- A record stays, and the name in it is not one before. -/
def Onward (before after : Option LoopRecord) : Prop :=
  ∀ r, before = some r → ∃ r', after = some r' ∧ r.published ≤ r'.published

theorem onward_of_eq {before after : Option LoopRecord} (h : after = before) :
    Onward before after :=
  fun r hr => ⟨r, h.trans hr, RequestID.le_refl _⟩

theorem onward_writeLoopRecord (h : Sound s) : Onward s.record (s.writeLoopRecord answer).record := by
  unfold Identity.writeLoopRecord
  cases hmem : s.memory with
  | none => exact onward_of_eq rfl
  | some m =>
    dsimp only
    split_ifs with hcas
    · exact onward_of_eq rfl
    push Not at hcas
    -- the revision observed is the record's, so memory is not behind it
    have hwrite : Onward s.record (some ⟨m.iterations, m.published⟩) :=
      fun r hr => ⟨_, rfl, (h.memory m hmem).ahead hcas.2 r hr⟩
    cases answer with
    | ok => exact hwrite
    | failed landed =>
      cases landed with
      | true => exact hwrite
      | false => exact onward_of_eq rfl

theorem onward_carry (h : Sound s) (hstep : s.carry lane content answer pc = some s') :
    Onward s.record s'.record := by
  cases pc with
  | writing =>
    cases hstep
    exact onward_writeLoopRecord h
  | _ =>
    simp only [Identity.carry] at hstep
    (repeat' split at hstep) <;> cases hstep <;> exact onward_of_eq rfl

theorem onward_taskCall (hstep : s.taskCall content answer task = some s') :
    Onward s.record s'.record := by
  cases task with
  | creating =>
    simp only [Identity.taskCall] at hstep
    split at hstep
    · rename_i hnone
      rw [hnone]
      exact nofun
    · cases hstep
      exact onward_of_eq rfl
  | _ =>
    simp only [Identity.taskCall] at hstep
    (repeat' split at hstep) <;> cases hstep <;> exact onward_of_eq rfl

theorem onward_mark (hstep : s.persistDeferredContinuationMarker answer = some s') :
    Onward s.record s'.record := by
  unfold Identity.persistDeferredContinuationMarker at hstep
  split at hstep
  · rename_i m r _ hrec
    split_ifs at hstep
    · cases hstep
      exact onward_of_eq rfl
    · cases answer with (cases hstep)
      | ok => exact onward_of_eq hrec.symm
      | failed landed =>
        cases landed with
        | true => exact onward_of_eq hrec.symm
        | false => exact onward_of_eq rfl
  · cases hstep

theorem onward_adoptNewer (hstep : s.adoptNewerRetainedRequest answer = some s') :
    Onward s.record s'.record := by
  unfold Identity.adoptNewerRetainedRequest at hstep
  split at hstep
  · rename_i r _ hrec _
    split_ifs at hstep with hlt
    · split at hstep <;> cases hstep
      · exact onward_of_eq rfl
      · intro _ hr'
        rw [hrec, Option.some.injEq] at hr'
        exact ⟨_, rfl, hr' ▸ RequestID.le_of_lt hlt⟩
    · cases hstep
      exact onward_of_eq rfl
  · cases hstep

/-- **One step takes the record to the same request or a later one.** -/
theorem onward_step (h : Sound s) (hstep : identityStep s e = some s') :
    Onward s.record s'.record := by
  cases e with
  | task content answer => exact onward_taskCall hstep
  | carry lane content answer => exact onward_carry h hstep
  | mark answer => exact onward_mark hstep
  | adoptNewer answer => exact onward_adoptNewer hstep
  | _ =>
    -- the other steps leave the record alone
    simp only [identityStep, Identity.takeOutcome, Identity.restoreLoopFromEvidence] at hstep
    (repeat' split at hstep) <;> cases hstep <;> exact onward_of_eq rfl

theorem identified_initial : Identified .initial :=
  identified_quiet (fun _ => rfl) ⟨nofun, fun h => absurd rfl h, .nil, nofun, nofun⟩ trivial

/-- Names in order are names once each. -/
theorem eq_of_same_name (h : Sound s)
    (hc : (name, c) ∈ s.requests) (hc' : (name, c') ∈ s.requests) : c = c' := by
  have hnodup : (s.requests.map Prod.fst).Nodup := h.sorted.imp RequestID.ne_of_lt
  have heq := inj_on_of_nodup_map hnodup hc hc' rfl
  exact congrArg Prod.snd heq

/-- **The identity of a loop's requests survives crashes.** In every run in
which the record is not written while an advance is unfinished, and the loop is
not rebuilt under a handler at work: from the first published request on, the
record names a retained request and counts its iteration, no name stands for
two contents, and whatever follows leaves the record at the same request or a
later one. -/
theorem request_identity {es : List IdentityEvent} {s : Identity}
    (hrun : run identityStep .initial es = some s)
    (hunbroken : Along identityStep Unbroken .initial es) :
    (s.requests ≠ [] → ∃ r, s.record = some r ∧ r.published ∈ s.names ∧
      r.iterations + 1 = r.published.iteration) ∧
    (∀ name c c', (name, c) ∈ s.requests → (name, c') ∈ s.requests → c = c') ∧
    ∀ es' s', run identityStep s es' = some s' → Along identityStep Unbroken s es' →
      Onward s.record s'.record := by
  have hstep : ∀ s e s', Identified s → Unbroken s e → identityStep s e = some s' → Identified s' :=
    fun s e s' h hC hs => identified_step h hC hs
  have hs : Identified s := run_invariant_along hstep identified_initial hunbroken hrun
  refine ⟨?_, fun name c c' => eq_of_same_name hs.sound, ?_⟩
  · intro hne
    have hnames : s.names ≠ [] := fun hnil => hne (map_eq_nil_iff.1 hnil)
    obtain ⟨r, hr⟩ := ne_none_iff_exists'.1 (hs.sound.recorded hnames)
    obtain ⟨hcount, hknown⟩ := hs.sound.record r hr
    refine ⟨r, hr, hknown.resolve_right ?_, hcount⟩
    exact fun hnil => hnames hnil.1
  · -- along the rest of the run, the identity and the progress since `s`
    intro es' s' hrun' hunbroken' r hr
    have hboth : Identified s' ∧ ∃ r', s'.record = some r' ∧ r.published ≤ r'.published := by
      refine run_invariant_along
        (I := fun t => Identified t ∧ ∃ r', t.record = some r' ∧ r.published ≤ r'.published)
        ?_ ⟨hs, r, hr, RequestID.le_refl _⟩ hunbroken' hrun'
      rintro t e _ ⟨ht, r₁, hr₁, hle⟩ hC hst
      obtain ⟨r₂, hr₂, hle₂⟩ := onward_step ht.sound hst r₁ hr₁
      exact ⟨identified_step ht hC hst, r₂, hr₂, RequestID.le_trans hle hle₂⟩
    exact hboth.2

/-- A first iteration with one batch of calls. -/
def firstBatch : List IdentityEvent :=
  [.birth, .task "" .ok, .task "" .ok, .task "prompt" .ok, .takeResponse, .decide .call,
    .carry .response "" .ok]

/-- The second request is published, the process crashes before the stamp, and
a redelivery adopts it. -/
theorem request_identity_after_crash :
    ∃ s : Identity, s.record = some ⟨1, 2, 0⟩ ∧ (⟨2, 0⟩ : RequestID) ∈ s.names ∧
      ∀ name c c', (name, c) ∈ s.requests → (name, c') ∈ s.requests → c = c' := by
  let es := firstBatch ++ [.carry .response "" .ok, .mark .ok, .takeResult true,
    .carry .tool "" .ok, .carry .tool "" .ok, .carry .tool "" .ok, .carry .tool "results" .ok,
    .crash, .adoptNewer .ok, .restore false]
  -- the only record write finds the batch out and no advance begun
  have hunbroken : Along identityStep Unbroken .initial es := by
    repeat
      refine (along_cons rfl).2 ⟨by
        first
          | exact trivial
          | exact fun _ => rfl
          | (rintro - _ ⟨⟩; rfl)
          | exact nofun, ?_⟩
    exact trivial
  obtain ⟨hnamed, honce, -⟩ := request_identity rfl hunbroken
  obtain ⟨_, ⟨⟩, hmem, -⟩ := hnamed nofun
  exact ⟨_, rfl, hmem, honce⟩

/-- The response lane writes the record after the tool lane has taken the last
result and incremented the iteration. -/
theorem record_ahead_of_its_request : ∃ s, run identityStep .initial
        (firstBatch ++ [.takeResult true, .carry .tool "" .ok, .carry .response "" .ok]) = some s ∧
      s.record = some ⟨1, 1, 0⟩ :=
  ⟨_, rfl, rfl⟩

end LoopRequest

end SemStreams.AgenticLoop
