import SemStreams.AgenticLoop.ToolBatch
/-!
# agentic-loop — a turn that arrives while the model is working

A user may add a turn to a loop whose request is outstanding. Nothing is
published then: `attachContinuation` marks the turn as pending, `HandleTask`
adds it to the conversation a little later, and the handler of the outstanding
response mints a further request instead of completing the loop. `TrackRequest`
records that request as the turn's carrier, and its answer ends the deferral.

The task, response and tool-result lanes are served one delivery at a time
each, side by side, and nothing holds a loop across two manager calls. So a
handler here is a sequence of steps, one for each manager or context call, and
a run is any interleaving of the three lanes. Turns that find no request
outstanding are sent at once and play no part.

`deferred_turn_kept` is the result. A request built between the two steps of
`HandleTask` is recorded as the carrier of a turn it does not contain.
-/

namespace SemStreams.AgenticLoop

open List Function Option ChatMessage

def turn (prompt : String) : ChatMessage := { role := .user, content := prompt }

/-- `PendingContinuationPrompt` and `PendingContinuationRequestID`, while
`PendingContinuation` is set. -/
structure Deferral where
  prompt : String
  carrier : Option ℕ
deriving DecidableEq

inductive Progress
  | running
  | completed
  | failed
deriving DecidableEq

/-- One loop, as the manager and the context manager hold it. Requests are
numbered in the order they are tracked. -/
structure Deferring where
  status : Progress
  /-- the regions of the context outside the recent history -/
  system : List ChatMessage
  recent : List ChatMessage
  outstanding : Option ℕ
  deferral : Option Deferral
  iterations : ℕ
  maxIterations : ℕ
  taskPrompt : String
  pendingTools : List String
  queuedToolCalls : List String
  /-- the calls whose results are routed to the loop -/
  routes : List String
  /-- the collected results, as the tool messages they will become -/
  toolResults : List ChatMessage
  /-- the messages of each request -/
  minted : List (List ChatMessage)
  /-- the turn a deferring `HandleTask` has attached and not added yet -/
  attaching : Option String
  /-- history: the turns admitted, those whose deferral has not ended, the
  carriers recorded, and the requests whose answers were handled -/
  admitted : List String
  owed : List String
  carriers : List (String × ℕ)
  answered : List ℕ

open Deferring

/-- How the surroundings answer a step. -/
structure Outside where
  timedOut : Bool := false
  /-- a compaction runs and leaves this summary -/
  compaction : Option String := none
  /-- the calls the loop answers itself, and how -/
  rejected : ToolCall → Option String := fun _ => none
  /-- the budget line and the working list `prependIterationContext` adds -/
  preface : List String := []

section Calls

variable (c : Deferring)

def Deferring.hasPendingContinuation : Bool := c.deferral.any fun d => d.carrier = none

/-- `attachContinuation` behind its refusals, on a loop with a request
outstanding. -/
def Deferring.attachContinuation (prompt : String) : Deferring :=
  { c with
    deferral := some ⟨prompt, none⟩, attaching := some prompt
    admitted := c.admitted ++ [prompt], owed := c.owed ++ [prompt] }

def Deferring.addMessage (m : ChatMessage) : Deferring := { c with recent := c.recent ++ [m] }

/-- `TrackRequest`: the request is the outstanding one, and the carrier of the
turns that are deferred. -/
def Deferring.trackRequest (messages : List ChatMessage) : Deferring :=
  { c with
    minted := c.minted ++ [messages]
    outstanding := some c.minted.length
    deferral := c.deferral.map fun d => { d with carrier := some c.minted.length }
    carriers := c.carriers ++
      if c.deferral.isSome then c.owed.map fun p => (p, c.minted.length) else [] }

def Deferring.settleOutstandingLocked (n : ℕ) : Deferring :=
  { c with outstanding := if c.outstanding = some n then none else c.outstanding }

/-- `SettleRequest`, and `settleTruncatedRequest` for a truncated answer. -/
def Deferring.settleRequest (n : ℕ) (response : Response) : Deferring :=
  let c := c.settleOutstandingLocked n
  match response with
  | .lengthTruncated => c
  | _ =>
    let c := { c with answered := n :: c.answered }
    if c.deferral.any fun d => d.carrier = some n then { c with deferral := none, owed := [] } else c

/-- The message a compaction keeps: one at the end that waits for its tool
results. -/
def retained (recent : List ChatMessage) : List ChatMessage :=
  match recent.getLast? with
  | some m => if m.role = .assistant ∧ m.toolCalls ≠ [] then [m] else []
  | none => []

/-- `Compactor.Compact`: a summary stands for the recent history. -/
def Deferring.compact (summary : String) : Deferring :=
  if c.recent = retained c.recent then c
  else
    { c with
      system := c.system ++ [{ role := .system, content := summary }]
      recent := retained c.recent }

/-- `StoreToolResult`, by call. -/
def Deferring.storeToolResult (callID content : String) : Deferring :=
  { c with
    toolResults := c.toolResults.filter (fun m => m.toolCallID ≠ callID) ++
      [{ role := .tool, toolCallID := callID, content }] }

/-- `handleToolCallResponse`: some calls are answered, the first of the others
goes out and the rest are queued. -/
def Deferring.dispatch (rejected : ToolCall → Option String) (calls : List ToolCall) : Deferring :=
  let c := (calls.filter fun tc => (rejected tc).isSome).foldl
    (fun c tc => c.storeToolResult tc.id ((rejected tc).getD "")) c
  match calls.filter fun tc => (rejected tc).isNone with
  | [] => c
  | tc :: rest =>
    { c with
      pendingTools := c.pendingTools.insert tc.id
      routes := c.routes.insert tc.id
      queuedToolCalls := c.queuedToolCalls ++ rest.map ToolCall.id }

/-- `synthesizeSkippedQueuedTools`. -/
def Deferring.skipQueued : Deferring :=
  { c.queuedToolCalls.foldl
      (fun c id => c.storeToolResult id "Tool error: skipped because a terminal tool ended the iteration") c
    with queuedToolCalls := [] }

/-- `absorbToolResultsIntoContext`. -/
def Deferring.absorb : Deferring :=
  { c with
    recent := c.recent ++ c.toolResults
    toolResults := []
    routes := c.routes.filter fun id => id ∉ c.toolResults.map toolCallID }

def Deferring.fail : Deferring := { c with status := .failed }

end Calls

/-- Where a handler stands: the call it makes next. -/
inductive Pc
  | idle
  /-- the guards of `HandleModelResponse` are passed, with this iteration read -/
  | accepted (request : ℕ) (response : Response) (iteration : ℕ)
  | settled (response : Response) (iteration : ℕ)
  /-- the assistant message is added, the threshold not looked at -/
  | added (response : Response)
  | deciding (response : Response)
  /-- the guards of `HandleToolResult` are passed -/
  | delivered (callID content : String) (stopLoop : Bool)
  | stored (callID : String) (stopLoop : Bool)
  | stopping
  | completing
  /-- the carry and the ordinary advance, before and after the results are absorbed -/
  | absorbingCarry
  | carrying
  | advancing
  | absorbing
  /-- `publishIterationRequest`, call by call -/
  | auditing
  | reading
  | recovering
  | recalling
  | restoring (prompt : Option String)
  | rereading
  | tracking (messages : List ChatMessage)

/-- The synthetic turn `recoverEmptyContext` starts with. -/
def recoveredPrompt (taskPrompt : String) : ChatMessage :=
  let prompt := if taskPrompt = "" then "Continue with the task." else taskPrompt
  turn ("[Context recovered after tool pair cleanup]\n\nOriginal task: " ++ prompt ++
    "\n\nPrevious tool calls encountered errors. Please continue or try a different approach.")

/-- **The next call of a handler**: what it does to the loop, and where the
handler stands afterwards. -/
def Deferring.work (c : Deferring) (env : Outside) : Pc → Deferring × Pc
  | .idle => (c, .idle)
  | .accepted n response iteration => (c.settleRequest n response, .settled response iteration)
  | .settled response iteration =>
    if env.timedOut ∨ c.maxIterations ≤ iteration then (c.fail, .idle)
    else
      match response with
      -- a message that is not empty is kept, a truncated one is not
      | .toolCall content reasoning calls =>
        if content ≠ "" ∨ reasoning ≠ "" ∨ calls ≠ [] then
          (c.addMessage (assistantMessage content reasoning calls), .added response)
        else (c, .deciding response)
      | .complete content reasoning =>
        if content ≠ "" ∨ reasoning ≠ "" then
          (c.addMessage (assistantMessage content reasoning []), .added response)
        else (c, .deciding response)
      | .lengthTruncated => (c, .deciding response)
      | .error => (c, .deciding response)
  | .added response =>
    match env.compaction with
    | some summary => (c.compact summary, .deciding response)
    | none => (c, .deciding response)
  | .deciding (.toolCall _ _ calls) =>
    let c := c.dispatch env.rejected calls
    if c.pendingTools = [] then (c, .advancing) else (c, .idle)
  | .deciding (.complete _ _) => (c, if c.hasPendingContinuation then .carrying else .completing)
  | .deciding .lengthTruncated =>
    match env.compaction with
    | some summary => (c.compact summary, .auditing)
    | none => (c.fail, .idle)
  | .deciding .error => (c.fail, .idle)
  | .delivered callID content stopLoop =>
    if env.timedOut then (c.fail, .idle)
    else (c.storeToolResult callID content, .stored callID stopLoop)
  | .stored callID stopLoop =>
    let c := { c with pendingTools := c.pendingTools.filter (· ≠ callID) }
    if stopLoop then (c, .stopping)
    else
      match c.queuedToolCalls with
      | id :: rest =>
        ({ c with
          queuedToolCalls := rest
          pendingTools := c.pendingTools.insert id
          routes := c.routes.insert id }, .idle)
      | [] => (c, if c.pendingTools = [] then .advancing else .idle)
  | .stopping =>
    if c.hasPendingContinuation then (c.skipQueued, .absorbingCarry)
    else ({ c with queuedToolCalls := [] }, .completing)
  | .completing => ({ c with status := .completed }, .idle)
  | .absorbingCarry => (c.absorb, .carrying)
  | .carrying =>
    if c.maxIterations ≤ c.iterations then (c, .completing)
    else ({ c with iterations := c.iterations + 1 }, .auditing)
  | .advancing =>
    if c.maxIterations ≤ c.iterations then (c.fail, .idle)
    else ({ c with iterations := c.iterations + 1 }, .absorbing)
  | .absorbing => (c.absorb, .auditing)
  | .auditing => ({ c with recent := (repairToolPairs c.recent).1 }, .reading)
  | .reading =>
    let messages := c.system ++ c.recent
    (c, if hasUserOrAssistantMessage messages then .tracking messages else .recovering)
  | .recovering => (c.addMessage (recoveredPrompt c.taskPrompt), .recalling)
  | .recalling => (c, .restoring (c.deferral.map Deferral.prompt))
  | .restoring none => (c, .rereading)
  | .restoring (some prompt) => (c.addMessage (turn prompt), .rereading)
  | .rereading => (c, .tracking (c.system ++ c.recent))
  | .tracking messages =>
    let budget : List ChatMessage :=
      env.preface.map fun line => { role := .system, content := line }
    (c.trackRequest (budget ++ messages), .idle)

inductive Lane
  | response
  | tool
deriving DecidableEq

structure Lanes where
  core : Deferring
  pc : Lane → Pc

inductive DeferEvent
  /-- `HandleTask` attaches a turn -/
  | attach (prompt : String)
  /-- the same `HandleTask` adds it to the conversation -/
  | addTurn
  | response (request : ℕ) (response : Response)
  | toolResult (callID content : String) (stopLoop : Bool)
  /-- the handler on a lane makes its next call -/
  | advance (lane : Lane) (env : Outside)

/-- One manager call. A lane takes a delivery when it is idle; a response is
taken for the outstanding request, a result for a routed call. -/
def deferStep (s : Lanes) : DeferEvent → Option Lanes
  | .attach prompt =>
    if prompt ≠ "" ∧ s.core.attaching = none ∧ s.core.status = .running ∧ s.core.pendingTools = [] ∧
        s.core.outstanding.isSome then
      some { s with core := s.core.attachContinuation prompt }
    else none
  | .addTurn =>
    match s.core.attaching with
    | some prompt => some { s with core := { s.core.addMessage (turn prompt) with attaching := none } }
    | none => none
  | .response request response =>
    match s.pc .response with
    | .idle =>
      if s.core.status = .running ∧ s.core.outstanding = some request then
        some { s with
          pc := update s.pc .response (.accepted request response s.core.iterations) }
      else none
    | _ => none
  | .toolResult callID content stopLoop =>
    match s.pc .tool with
    | .idle =>
      if s.core.status = .running ∧ callID ∈ s.core.routes then
        some { s with pc := update s.pc .tool (.delivered callID content stopLoop) }
      else none
    | _ => none
  | .advance lane env =>
    some ⟨(s.core.work env (s.pc lane)).1, update s.pc lane (s.core.work env (s.pc lane)).2⟩

/-- A loop whose first request is out. -/
def Lanes.born (system : List String) (prompt : String) (maxIterations : ℕ) : Lanes where
  pc := fun _ => .idle
  core :=
    { status := .running
      system := system.map fun text => { role := .system, content := text }
      recent := [turn prompt]
      outstanding := some 0
      deferral := none
      iterations := 0
      maxIterations := maxIterations
      taskPrompt := prompt
      pendingTools := []
      queuedToolCalls := []
      routes := []
      toolResults := []
      minted := [(system.map fun text => { role := .system, content := text }) ++ [turn prompt]]
      attaching := none
      admitted := []
      owed := []
      carriers := []
      answered := [] }

/-! ## What a handler may rely on where it stands -/

/-- The request contains the turn. -/
def Sent (c : Deferring) (n : ℕ) (prompt : String) : Prop :=
  ∃ messages, c.minted[n]? = some messages ∧ turn prompt ∈ messages

/-- **The books of the deferred turns.** A carrier contains the turns it is
recorded for, and a turn is owed until a request that contains it is answered. -/
structure Ledger (c : Deferring) : Prop where
  owed_of_none : c.deferral = none → c.owed = []
  admitted : ∀ p ∈ c.admitted, p ∈ c.owed ∨ ∃ n ∈ c.answered, Sent c n p
  carriers : ∀ pn ∈ c.carriers, Sent c pn.2 pn.1
  carried : ∀ d, c.deferral = some d → ∀ n, d.carrier = some n → ∀ p ∈ c.owed, Sent c n p
  system_role : ∀ m ∈ c.system, m.role = .system

/-- Every owed turn is in the recent history, or about to be added. -/
def Held (c : Deferring) : Prop := ∀ p ∈ c.owed, turn p ∈ c.recent ∨ c.attaching = some p

/-- The entity keeps the text of every owed turn. It keeps one text. -/
def Recorded (c : Deferring) : Prop := ∀ p ∈ c.owed, c.deferral.map Deferral.prompt = some p

/-- A compaction took the recent history, and the owed turn can be recalled. -/
structure Emptied (c : Deferring) : Prop where
  recent : c.recent = []
  results : c.toolResults = []
  attaching : c.attaching = none
  recorded : Recorded c

/-- No request that is out carries a deferred turn. -/
def Uncarried (c : Deferring) : Prop := ∀ d, c.deferral = some d → d.carrier = none

/-- No batch of calls is open. -/
structure Clear (c : Deferring) : Prop where
  pending : c.pendingTools = []
  queued : c.queuedToolCalls = []
  routes : c.routes = []
  results : c.toolResults = []

/-- Every routed call has its answer. -/
structure Closed (c : Deferring) : Prop where
  pending : c.pendingTools = []
  routed : ∀ id ∈ c.routes, id ∈ c.toolResults.map toolCallID

/-- A handler is between an answer and the next request. -/
structure Between (c : Deferring) : Prop where
  running : c.status = .running
  outstanding : c.outstanding = none

structure Awaiting (c : Deferring) (n : ℕ) : Prop where
  running : c.status = .running
  outstanding : c.outstanding = some n
  clear : Clear c
  carrier : ∀ d, c.deferral = some d → ∀ m, d.carrier = some m → m = n
  held : Held c

structure Collecting (c : Deferring) : Prop where
  between : Between c
  pending : c.pendingTools ≠ []
  routed : ∀ id ∈ c.routes, id ∈ c.pendingTools ∨ id ∈ c.toolResults.map toolCallID
  uncarried : Uncarried c
  held : Held c

/-- The loop is over. Where it completed, no turn is owed or the budget is
spent. -/
structure Ended (c : Deferring) : Prop where
  ended : c.status ≠ .running
  settled : c.status = .completed → c.owed = [] ∨ c.maxIterations ≤ c.iterations

/-- **The assertion at each point of a handler.** -/
def Assert (c : Deferring) : Pc → Prop
  | .idle => Ended c ∨ (∃ n, Awaiting c n) ∨ Collecting c
  | .accepted n _ _ => Awaiting c n
  | .settled response _ =>
    Between c ∧ Clear c ∧ Held c ∧ (response ≠ .lengthTruncated → Uncarried c)
  | .added _ => Between c ∧ Clear c ∧ Held c ∧ Uncarried c
  | .deciding response =>
    Between c ∧ Clear c ∧ (Held c ∨ Emptied c ∧ response.calls = []) ∧
      (response ≠ .lengthTruncated → Uncarried c)
  | .delivered _ _ _ => Collecting c
  | .stored id _ => Collecting c ∧ id ∈ c.toolResults.map toolCallID
  | .stopping => Between c ∧ Closed c ∧ Held c ∧ Uncarried c
  | .completing => Between c ∧ (c.owed = [] ∨ c.maxIterations ≤ c.iterations)
  | .absorbingCarry => Between c ∧ Closed c ∧ c.queuedToolCalls = [] ∧ Held c
  | .advancing => Between c ∧ Closed c ∧ c.queuedToolCalls = [] ∧ (Held c ∨ Emptied c)
  | .absorbing => Between c ∧ Closed c ∧ c.queuedToolCalls = [] ∧ (Held c ∨ Emptied c)
  | .carrying => Between c ∧ Clear c ∧ (Held c ∨ Emptied c)
  | .auditing => Between c ∧ Clear c ∧ (Held c ∨ Emptied c)
  | .reading => Between c ∧ Clear c ∧ (Held c ∨ Emptied c)
  | .recovering => Between c ∧ Clear c ∧ Recorded c ∧ c.attaching = none
  | .recalling => Between c ∧ Clear c ∧ Recorded c ∧ c.attaching = none
  | .restoring prompt => Between c ∧ Clear c ∧ ∀ p ∈ c.owed, prompt = some p
  | .rereading => Between c ∧ Clear c ∧ ∀ p ∈ c.owed, turn p ∈ c.recent
  | .tracking messages => Between c ∧ Clear c ∧ Held c ∧ ∀ p ∈ c.owed, turn p ∈ messages

/-- A compaction leaves the turns that wait recoverable: none is between the
steps of its `HandleTask`, only the one whose text is kept is owed, and the
whole history is taken. -/
def Spared (c : Deferring) : Prop :=
  c.owed = [] ∨ (c.attaching = none ∧ Recorded c ∧ retained c.recent = [])

/-- **What the next call of a handler must meet.** The conversation is read
for a request while no turn is between the steps of its `HandleTask`;
compaction spares the turns that wait, and does not run on an answer with
calls while any does; a terminal result finds no other call in flight. -/
def Timely (c : Deferring) (env : Outside) : Pc → Prop
  | .reading => c.attaching = none
  | .added response => env.compaction.isSome → c.owed = [] ∨ (Spared c ∧ response.calls = [])
  | .deciding .lengthTruncated => env.compaction.isSome → Spared c
  | .stored callID true => ∀ id ∈ c.pendingTools, id = callID
  | _ => True

variable {c : Deferring} {env : Outside} {n : ℕ} {p : String}

theorem mem_repairToolPairs (h : turn p ∈ c.recent) : turn p ∈ (repairToolPairs c.recent).1 :=
  mem_filter.2 ⟨h, rfl⟩

variable {messages : List ChatMessage}

theorem hasUserOrAssistantMessage_of_turn (h : turn p ∈ messages) :
    hasUserOrAssistantMessage messages :=
  List.any_eq_true.2 ⟨turn p, h, rfl⟩

theorem Sent.append (h : Sent c n p) (hminted : c'.minted = c.minted ++ [messages]) :
    Sent c' n p := by
  obtain ⟨sent, hget, hmem⟩ := h
  refine ⟨sent, ?_, hmem⟩
  have hlt : n < c.minted.length := (List.getElem?_eq_some_iff.1 hget).1
  rw [hminted, List.getElem?_append_left hlt, hget]

theorem hasPendingContinuation_eq_false (h : Uncarried c) (hnone : c.hasPendingContinuation = false) :
    c.deferral = none := by
  cases hd : c.deferral with
  | none => rfl
  | some d =>
    have hcarrier := h d hd
    simp [hasPendingContinuation, hd, hcarrier] at hnone

/-- **A tracked request that contains the owed turns** may be their carrier. -/
theorem ledger_trackRequest (h : Ledger c) (howed : ∀ p ∈ c.owed, turn p ∈ messages) :
    Ledger (c.trackRequest messages) := by
  have hold : ∀ n p, Sent c n p → Sent (c.trackRequest messages) n p :=
    fun n p hsent => hsent.append rfl
  have hnew : ∀ p ∈ c.owed, Sent (c.trackRequest messages) c.minted.length p := by
    intro p hp
    exact ⟨messages, by simp [trackRequest], howed p hp⟩
  refine ⟨fun hnone => ?_, fun p hp => ?_, fun pn hpn => ?_, fun d hd n hn p hp => ?_, h.system_role⟩
  · exact h.owed_of_none (map_eq_none_iff.1 hnone)
  · rcases h.admitted p hp with howed | ⟨n, hn, hsent⟩
    · exact .inl howed
    · exact .inr ⟨n, hn, hold n p hsent⟩
  · rcases mem_append.1 hpn with hpn | hpn
    · exact hold _ _ (h.carriers pn hpn)
    split at hpn
    · obtain ⟨p, hp, rfl⟩ := List.mem_map.1 hpn
      exact hnew p hp
    · simp at hpn
  · obtain ⟨_, -, rfl⟩ := map_eq_some_iff.1 hd
    cases hn
    exact hnew p hp

/-- **An answer ends the deferral its request carried**, and every turn that
was owed is in that request. -/
theorem ledger_settleRequest (h : Ledger c) (n : ℕ) (response : Response) :
    Ledger (c.settleRequest n response) := by
  unfold settleRequest
  dsimp only
  split
  · exact { h with }
  split_ifs with hcarrier
  · obtain ⟨d, hd, hn⟩ := (Option.any_eq_true _ _).1 hcarrier
    refine ⟨fun _ => rfl, fun p hp => .inr ?_, h.carriers, nofun, h.system_role⟩
    rcases h.admitted p hp with howed | ⟨m, hm, hsent⟩
    · exact ⟨n, mem_cons_self, h.carried d hd n (by simpa using hn) p howed⟩
    · exact ⟨m, mem_cons_of_mem n hm, hsent⟩
  · refine { h with admitted := fun p hp => ?_ }
    rcases h.admitted p hp with howed | ⟨m, hm, hsent⟩
    · exact .inl howed
    · exact .inr ⟨m, mem_cons_of_mem n hm, hsent⟩

/-- The settling of the outstanding request: whatever stays deferred is
carried by nothing, unless the answer was cut off. -/
theorem awaiting_settleRequest (h : Awaiting c n) (response : Response) :
    Between (c.settleRequest n response) ∧ Clear (c.settleRequest n response) ∧
      Held (c.settleRequest n response) ∧
      (response ≠ .lengthTruncated → Uncarried (c.settleRequest n response)) := by
  have hnone : (c.settleOutstandingLocked n).outstanding = none := if_pos h.outstanding
  unfold settleRequest
  dsimp only
  split
  · exact ⟨⟨h.running, hnone⟩, { h.clear with }, h.held, fun hne => absurd rfl hne⟩
  · split_ifs with hcarrier
    · exact ⟨⟨h.running, hnone⟩, { h.clear with }, nofun, fun _ => nofun⟩
    · refine ⟨⟨h.running, hnone⟩, { h.clear with }, h.held, fun _ d hd => ?_⟩
      have hd : c.deferral = some d := hd
      cases hm : d.carrier with
      | none => rfl
      | some m =>
        obtain rfl := h.carrier d hd m hm
        exact absurd ((Option.any_eq_true _ _).2 ⟨d, hd, by simp [hm]⟩) hcarrier

/-- Answers are stored beside the others, and nothing else changes. -/
theorem foldl_storeToolResult {α : Type} (id content : α → String) (l : List α) (c : Deferring) :
    ∃ results, l.foldl (fun c x => c.storeToolResult (id x) (content x)) c =
        { c with toolResults := results } ∧
      ∀ i ∈ c.toolResults.map toolCallID, i ∈ results.map toolCallID := by
  induction l generalizing c with
  | nil => exact ⟨c.toolResults, rfl, fun _ h => h⟩
  | cons x l ih =>
    obtain ⟨results, heq, hkept⟩ := ih (c.storeToolResult (id x) (content x))
    refine ⟨results, by rw [foldl_cons, heq]; rfl, fun i hi => hkept i ?_⟩
    obtain ⟨m, hm, rfl⟩ := List.mem_map.1 hi
    by_cases hsame : m.toolCallID = id x
    · exact List.mem_map.2 ⟨_, mem_append_right _ (mem_singleton.2 rfl), hsame.symm⟩
    · exact List.mem_map.2 ⟨m, mem_append_left _ (mem_filter.2 ⟨hm, by simpa using hsame⟩), rfl⟩

/-- An absorbed batch leaves nothing routed. -/
theorem clear_absorb (h : Closed c) (hqueue : c.queuedToolCalls = []) : Clear c.absorb := by
  refine ⟨h.pending, hqueue, ?_, rfl⟩
  refine filter_eq_nil_iff.2 fun id hid => ?_
  simpa using h.routed id hid

theorem held_absorb (h : Held c) : Held c.absorb :=
  fun p hp => (h p hp).imp_left (mem_append_left _)

theorem emptied_absorb (h : Emptied c) : Emptied c.absorb := by
  refine ⟨?_, rfl, h.attaching, h.recorded⟩
  show c.recent ++ c.toolResults = []
  rw [h.recent, h.results]
  rfl

theorem held_addMessage (h : Held c) (m : ChatMessage) : Held (c.addMessage m) :=
  fun p hp => (h p hp).imp_left (mem_append_left _)

variable {summary : String}

theorem compact_owed : (c.compact summary).owed = c.owed := by
  unfold compact
  split <;> rfl

/-- A compaction that spares the turns leaves them held or recoverable. -/
theorem spared_compact (hclear : Clear c) (hspared : Spared c) :
    Held (c.compact summary) ∨ Emptied (c.compact summary) := by
  rcases hspared with hnone | ⟨hattaching, hrecorded, hretained⟩
  · refine .inl fun p hp => ?_
    rw [compact_owed, hnone] at hp
    contradiction
  · refine .inr ?_
    unfold compact
    split
    · rename_i hsame
      exact ⟨hsame.trans hretained, hclear.results, hattaching, hrecorded⟩
    · exact ⟨hretained, hclear.results, hattaching, hrecorded⟩

theorem compact_frame (h : Ledger c) (hbetween : Between c) (hclear : Clear c) :
    Ledger (c.compact summary) ∧ Between (c.compact summary) ∧ Clear (c.compact summary) ∧
      (c.compact summary).deferral = c.deferral := by
  unfold compact
  split
  · exact ⟨h, hbetween, hclear, rfl⟩
  refine ⟨⟨h.1, h.2, h.3, h.4, fun m hm => ?_⟩, { hbetween with }, { hclear with }, rfl⟩
  rcases mem_append.1 hm with hm | hm
  · exact h.system_role m hm
  · obtain rfl := mem_singleton.1 hm
    rfl

theorem ended_fail (c : Deferring) : Ended c.fail := ⟨nofun, nofun⟩

/-- The answers and dispatches of a batch. -/
theorem assert_dispatch (h : Ledger c) (hbetween : Between c) (hclear : Clear c)
    {calls : List ToolCall} (hheld : Held c ∨ Emptied c ∧ calls = []) (huncarried : Uncarried c) :
    Ledger (c.dispatch env.rejected calls) ∧
      if (c.dispatch env.rejected calls).pendingTools = [] then
        Assert (c.dispatch env.rejected calls) .advancing
      else Assert (c.dispatch env.rejected calls) .idle := by
  obtain ⟨results, heq, _⟩ := foldl_storeToolResult ToolCall.id
    (fun tc => (env.rejected tc).getD "") (calls.filter fun tc => (env.rejected tc).isSome) c
  unfold dispatch
  rw [heq]
  cases hsent : calls.filter fun tc => (env.rejected tc).isNone with
  | nil =>
    refine ⟨{ h with }, ?_⟩
    rw [if_pos hclear.pending]
    refine ⟨{ hbetween with }, ⟨hclear.pending, fun id hid => ?_⟩, hclear.queued, ?_⟩
    · have hid : id ∈ c.routes := hid
      rw [hclear.routes] at hid
      contradiction
    · rcases hheld with hheld | ⟨hemptied, rfl⟩
      · exact .inl hheld
      -- no calls: nothing was stored
      have hresults : results = c.toolResults := by
        have hsame := congrArg toolResults heq
        exact hsame.symm
      exact .inr { hemptied with results := hresults.trans hemptied.results }
  | cons tc rest =>
    have hheld : Held c := by
      rcases hheld with hheld | ⟨-, rfl⟩
      · exact hheld
      · simp at hsent
    have hpending : tc.id ∈ c.pendingTools.insert tc.id := mem_insert_self
    refine ⟨{ h with }, ?_⟩
    rw [if_neg (ne_nil_of_mem hpending)]
    refine .inr (.inr ⟨{ hbetween with }, ne_nil_of_mem hpending, fun id hid => ?_,
      huncarried, hheld⟩)
    have hid : id ∈ c.routes.insert tc.id := hid
    rw [hclear.routes] at hid
    obtain rfl : id = tc.id := by simpa using hid
    exact .inl hpending

/-- A result that is stored leaves its call neither pending nor unanswered. -/
theorem assert_stored (h : Ledger c) (hat : Collecting c)
    (hstored : callID ∈ c.toolResults.map toolCallID)
    (htimely : Timely c env (.stored callID stopLoop)) :
    Ledger (c.work env (.stored callID stopLoop)).1 ∧
      Assert (c.work env (.stored callID stopLoop)).1 (c.work env (.stored callID stopLoop)).2 := by
  have hrouted : ∀ id ∈ c.routes, id ∈ c.pendingTools.filter (· ≠ callID) ∨
      id ∈ c.toolResults.map toolCallID := by
    intro id hid
    rcases hat.routed id hid with hpending | hresult
    · by_cases hsame : id = callID
      · exact .inr (hsame ▸ hstored)
      · exact .inl (mem_filter.2 ⟨hpending, by simpa using hsame⟩)
    · exact .inr hresult
  have hclosed : c.pendingTools.filter (· ≠ callID) = [] →
      Closed { c with pendingTools := c.pendingTools.filter (· ≠ callID) } := by
    intro hnone
    refine ⟨hnone, fun id hid => ?_⟩
    rcases hrouted id hid with hpending | hresult
    · rw [hnone] at hpending
      contradiction
    · exact hresult
  cases stopLoop with
  | true =>
    have hnone : c.pendingTools.filter (· ≠ callID) = [] := by
      refine filter_eq_nil_iff.2 fun id hid => ?_
      simpa using htimely id hid
    exact ⟨{ h with }, { hat.between with }, hclosed hnone, hat.held, hat.uncarried⟩
  | false =>
    simp only [work, Bool.false_eq_true, if_false]
    cases hqueue : c.queuedToolCalls with
    | cons next _ =>
      -- the next queued call goes out
      have hpending : next ∈ (c.pendingTools.filter (· ≠ callID)).insert next := mem_insert_self
      refine ⟨{ h with }, .inr (.inr ⟨{ hat.between with },
        ne_nil_of_mem hpending, fun id hid => ?_, hat.uncarried, hat.held⟩)⟩
      rcases mem_insert_iff.1 hid with rfl | hid
      · exact .inl hpending
      · rcases hrouted id hid with hid | hid
        · exact .inl (mem_insert_of_mem hid)
        · exact .inr hid
    | nil =>
      refine ⟨{ h with }, ?_⟩
      split_ifs with hnone
      · exact ⟨{ hat.between with }, ⟨hnone, (hclosed hnone).routed⟩, rfl, .inl hat.held⟩
      · exact .inr (.inr ⟨{ hat.between with }, hnone, hrouted, hat.uncarried, hat.held⟩)

/-- The arms of `HandleModelResponse`. -/
theorem assert_deciding (h : Ledger c) {response : Response}
    (hat : Assert c (.deciding response)) (htimely : Timely c env (.deciding response)) :
    Ledger (c.work env (.deciding response)).1 ∧
      Assert (c.work env (.deciding response)).1 (c.work env (.deciding response)).2 := by
  obtain ⟨hbetween, hclear, hheld, huncarried⟩ := hat
  cases response with
  | toolCall content reasoning calls =>
    obtain ⟨hledger, hassert⟩ := @assert_dispatch c env h hbetween hclear calls hheld
      (huncarried nofun)
    simp only [work]
    split_ifs at hassert ⊢ with hnone <;> exact ⟨hledger, hassert⟩
  | complete content reasoning =>
    have hheld : Held c ∨ Emptied c := hheld.imp_right And.left
    refine ⟨h, ?_⟩
    simp only [work]
    split_ifs with hpending
    · exact ⟨hbetween, hclear, hheld⟩
    · -- nothing is deferred, so nothing is owed
      have hnone := hasPendingContinuation_eq_false (huncarried nofun) (by simpa using hpending)
      exact ⟨hbetween, .inl (h.owed_of_none hnone)⟩
  | lengthTruncated =>
    simp only [work]
    cases hcompaction : env.compaction with
    | none => exact ⟨{ h with }, .inl (ended_fail c)⟩
    | some summary =>
      obtain ⟨hledger, hbetween', hclear', -⟩ := @compact_frame c summary h hbetween hclear
      exact ⟨hledger, hbetween', hclear', spared_compact hclear (htimely (by simp [hcompaction]))⟩
  | error => exact ⟨{ h with }, .inl (ended_fail c)⟩

/-- The conversation read has every owed turn, or it was emptied and no user's turn is in it. -/
theorem assert_reading (h : Ledger c) (hat : Assert c .reading) (hattaching : c.attaching = none) :
    Ledger (c.work env .reading).1 ∧
      Assert (c.work env .reading).1 (c.work env .reading).2 := by
  obtain ⟨hbetween, hclear, hheld⟩ := hat
  refine ⟨h, ?_⟩
  simp only [work]
  rcases hheld with hheld | hemptied
  · -- every owed turn is in the conversation that is read
    have hrecent : ∀ p ∈ c.owed, turn p ∈ c.recent := by
      intro p hp
      rcases hheld p hp with hmem | hpending
      · exact hmem
      · rw [hattaching] at hpending
        contradiction
    split_ifs with huser
    · exact ⟨hbetween, hclear, hheld, fun p hp => mem_append_right _ (hrecent p hp)⟩
    · refine ⟨hbetween, hclear, fun p hp => ?_, hattaching⟩
      exact absurd (hasUserOrAssistantMessage_of_turn
        (mem_append_right c.system (hrecent p hp))) huser
  · have huser : hasUserOrAssistantMessage (c.system ++ c.recent) = false := by
      rw [hemptied.recent, append_nil]
      refine List.any_eq_false.2 fun m hm => ?_
      rw [h.system_role m hm]
      decide
    rw [huser]
    exact ⟨hbetween, hclear, hemptied.recorded, hattaching⟩

/-- **Each call of a handler takes it from one assertion to the next**, and
keeps the books. -/
theorem assert_work (h : Ledger c) (hat : Assert c pc) (htimely : Timely c env pc) :
    Ledger (c.work env pc).1 ∧ Assert (c.work env pc).1 (c.work env pc).2 := by
  cases pc with
  | idle => exact ⟨h, hat⟩
  | accepted n response iteration =>
    exact ⟨ledger_settleRequest h n response, awaiting_settleRequest hat response⟩
  | settled response iteration =>
    obtain ⟨hbetween, hclear, hheld, huncarried⟩ := hat
    simp only [work]
    split_ifs with hover
    · exact ⟨{ h with }, .inl (ended_fail c)⟩
    cases response with
    | toolCall | complete =>
      dsimp only
      split_ifs
      · exact ⟨{ h with }, { hbetween with }, { hclear with }, held_addMessage hheld _,
          huncarried nofun⟩
      · exact ⟨h, hbetween, hclear, .inl hheld, huncarried⟩
    | lengthTruncated | error => exact ⟨h, hbetween, hclear, .inl hheld, huncarried⟩
  | added response =>
    obtain ⟨hbetween, hclear, hheld, huncarried⟩ := hat
    simp only [work]
    cases hcompaction : env.compaction with
    | none => exact ⟨h, hbetween, hclear, .inl hheld, fun _ => huncarried⟩
    | some summary =>
      obtain ⟨hledger, hbetween', hclear', hdeferral⟩ := @compact_frame c summary h hbetween hclear
      refine ⟨hledger, hbetween', hclear', ?_, fun _ d hd => huncarried d (hdeferral ▸ hd)⟩
      rcases htimely (by simp [hcompaction]) with hnone | ⟨hspared, hcalls⟩
      · refine .inl fun p hp => ?_
        rw [compact_owed, hnone] at hp
        contradiction
      · exact (spared_compact hclear hspared).imp_right fun hemptied => ⟨hemptied, hcalls⟩
  | deciding response => exact assert_deciding h hat htimely
  | delivered callID content stopLoop =>
    simp only [work]
    split_ifs
    · exact ⟨{ h with }, .inl (ended_fail c)⟩
    obtain ⟨results, heq, hkept⟩ :=
      foldl_storeToolResult (fun _ : Unit => callID) (fun _ => content) [()] c
    have heq : c.storeToolResult callID content = { c with toolResults := results } := heq
    rw [heq]
    refine ⟨{ h with }, ⟨{ hat.between with }, hat.pending,
      fun id hid => (hat.routed id hid).imp_right (hkept id), hat.uncarried, hat.held⟩, ?_⟩
    have hresults : results = (c.storeToolResult callID content).toolResults := by rw [heq]
    rw [hresults]
    exact List.mem_map.2 ⟨_, mem_append_right _ (mem_singleton.2 rfl), rfl⟩
  | stored callID stopLoop => exact assert_stored h hat.1 hat.2 htimely
  | stopping =>
    obtain ⟨hbetween, hclosed, hheld, huncarried⟩ := hat
    simp only [work]
    split_ifs with hpending
    · obtain ⟨results, heq, hkept⟩ := foldl_storeToolResult (fun id : String => id)
        (fun _ => "Tool error: skipped because a terminal tool ended the iteration")
        c.queuedToolCalls c
      simp only [skipQueued, heq]
      exact ⟨{ h with }, { hbetween with },
        ⟨hclosed.pending, fun id hid => hkept id (hclosed.routed id hid)⟩, rfl, hheld⟩
    · have hnone := hasPendingContinuation_eq_false huncarried (by simpa using hpending)
      exact ⟨{ h with }, { hbetween with }, .inl (h.owed_of_none hnone)⟩
  | completing => exact ⟨{ h with }, .inl ⟨nofun, fun _ => hat.2⟩⟩
  | absorbingCarry =>
    obtain ⟨hbetween, hclosed, hqueue, hheld⟩ := hat
    exact ⟨{ h with }, { hbetween with }, clear_absorb hclosed hqueue, .inl (held_absorb hheld)⟩
  | carrying =>
    obtain ⟨hbetween, hclear, hheld⟩ := hat
    simp only [work]
    split_ifs with hspent
    · exact ⟨h, hbetween, .inr hspent⟩
    · exact ⟨{ h with }, { hbetween with }, { hclear with }, hheld.imp_right fun he => { he with }⟩
  | advancing =>
    obtain ⟨hbetween, hclosed, hqueue, hheld⟩ := hat
    simp only [work]
    split_ifs with hspent
    · exact ⟨{ h with }, .inl (ended_fail c)⟩
    · exact ⟨{ h with }, { hbetween with }, { hclosed with }, hqueue,
        hheld.imp_right fun he => { he with }⟩
  | absorbing =>
    obtain ⟨hbetween, hclosed, hqueue, hheld⟩ := hat
    exact ⟨{ h with }, { hbetween with }, clear_absorb hclosed hqueue,
      hheld.imp held_absorb emptied_absorb⟩
  | auditing =>
    obtain ⟨hbetween, hclear, hheld⟩ := hat
    refine ⟨{ h with }, { hbetween with }, { hclear with }, ?_⟩
    rcases hheld with hheld | hemptied
    · exact .inl fun p hp => (hheld p hp).imp_left mem_repairToolPairs
    refine .inr { hemptied with recent := ?_ }
    show (repairToolPairs c.recent).1 = []
    rw [hemptied.recent]
    rfl
  | reading => exact assert_reading h hat htimely
  | recovering =>
    obtain ⟨hbetween, hclear, hrecorded, hattaching⟩ := hat
    exact ⟨{ h with }, { hbetween with }, { hclear with }, hrecorded, hattaching⟩
  | recalling =>
    obtain ⟨hbetween, hclear, hrecorded, -⟩ := hat
    exact ⟨h, hbetween, hclear, hrecorded⟩
  | restoring prompt =>
    obtain ⟨hbetween, hclear, hprompt⟩ := hat
    cases prompt with
    | none => exact ⟨h, hbetween, hclear, fun p hp => nomatch hprompt p hp⟩
    | some prompt =>
      refine ⟨{ h with }, { hbetween with }, { hclear with }, fun p hp => ?_⟩
      obtain rfl := Option.some.inj (hprompt p hp)
      exact mem_append_right _ (mem_singleton.2 rfl)
  | rereading =>
    obtain ⟨hbetween, hclear, hrecent⟩ := hat
    exact ⟨h, hbetween, hclear, fun p hp => .inl (hrecent p hp), fun p hp =>
      mem_append_right _ (hrecent p hp)⟩
  | tracking messages =>
    obtain ⟨hbetween, hclear, hheld, hmessages⟩ := hat
    refine ⟨ledger_trackRequest h fun p hp => mem_append_right _ (hmessages p hp),
      .inr (.inl ⟨c.minted.length, hbetween.running, rfl,
        { hclear with }, fun d hd m hm => ?_, hheld⟩)⟩
    obtain ⟨_, -, rfl⟩ := map_eq_some_iff.1 hd
    exact (Option.some.inj hm).symm

/-- A handler that is not between an answer and a request has not begun. -/
theorem Assert.of_not_between (hat : Assert c pc) (hnot : ¬ Between c) :
    (pc = .idle ∧ (Ended c ∨ ∃ n, Awaiting c n)) ∨
      ∃ n response iteration, pc = .accepted n response iteration ∧ Awaiting c n := by
  cases pc with
  | idle => exact .inl ⟨rfl, hat.imp_right fun h => h.resolve_right fun hc => hnot hc.between⟩
  | accepted n response iteration => exact .inr ⟨n, response, iteration, rfl, hat⟩
  | delivered => exact absurd (Collecting.between hat) hnot
  | stored => exact absurd (Collecting.between hat.1) hnot
  | _ => exact absurd hat.1 hnot

/-- A turn is attached only while a request is outstanding. -/
theorem assert_attach (h : Ledger c) {pc : Pc} (hat : Assert c pc) (hrunning : c.status = .running)
    (hattaching : c.attaching = none) (hout : c.outstanding.isSome) :
    Ledger (c.attachContinuation p) ∧ Assert (c.attachContinuation p) pc := by
  have hledger : Ledger (c.attachContinuation p) := by
    refine ⟨nofun, fun q hq => ?_, h.carriers, fun d hd n hn => ?_, h.system_role⟩
    · rcases mem_append.1 hq with hq | hq
      · exact (h.admitted q hq).imp_left (mem_append_left _)
      · exact .inl (mem_append_right _ hq)
    · cases hd
      contradiction
  have hawaiting : ∀ n, Awaiting c n → Awaiting (c.attachContinuation p) n := by
    intro n ha
    refine ⟨ha.running, ha.outstanding, { ha.clear with }, fun d hd m hm => ?_, fun q hq => ?_⟩
    · cases hd
      contradiction
    · rcases mem_append.1 hq with hq | hq
      · rcases ha.held q hq with hmem | hsame
        · exact .inl hmem
        · rw [hattaching] at hsame
          contradiction
      · exact .inr (by rw [mem_singleton.1 hq]; rfl)
  have hbetween : ¬ Between c := by
    intro hb
    rw [hb.outstanding] at hout
    contradiction
  refine ⟨hledger, ?_⟩
  rcases hat.of_not_between hbetween with ⟨rfl, hended | ⟨n, ha⟩⟩ | ⟨n, _, _, rfl, ha⟩
  · exact absurd hrunning hended.ended
  · exact .inr (.inl ⟨n, hawaiting n ha⟩)
  · exact hawaiting n ha

theorem assert_addTurn (h : Ledger c) (hat : Assert c pc) (hattaching : c.attaching = some p) :
    Ledger { c.addMessage (turn p) with attaching := none } ∧
      Assert { c.addMessage (turn p) with attaching := none } pc := by
  have hheld : Held c → Held { c.addMessage (turn p) with attaching := none } := by
    intro hheld q hq
    rcases hheld q hq with hmem | hsame
    · exact .inl (mem_append_left _ hmem)
    · rw [hattaching, Option.some.injEq] at hsame
      exact .inl (mem_append_right _ (mem_singleton.2 (by rw [hsame])))
  have hemptied : ¬ Emptied c := by
    intro he
    rw [he.attaching] at hattaching
    contradiction
  have hboth : Held c ∨ Emptied c → Held { c.addMessage (turn p) with attaching := none } ∨
      Emptied { c.addMessage (turn p) with attaching := none } :=
    fun hor => .inl (hheld (hor.resolve_right hemptied))
  have hbetween : Between c → Between { c.addMessage (turn p) with attaching := none } :=
    fun hb => { hb with }
  have hclear : Clear c → Clear { c.addMessage (turn p) with attaching := none } :=
    fun hc => { hc with }
  have hclosed : Closed c → Closed { c.addMessage (turn p) with attaching := none } :=
    fun hc => { hc with }
  have hawaiting : ∀ n, Awaiting c n →
      Awaiting { c.addMessage (turn p) with attaching := none } n :=
    fun n ha => ⟨ha.1, ha.2, hclear ha.clear, ha.carrier, hheld ha.held⟩
  have hcollecting : Collecting c → Collecting { c.addMessage (turn p) with attaching := none } :=
    fun hc => { hc with between := hbetween hc.between, held := hheld hc.held }
  refine ⟨{ h with }, ?_⟩
  cases pc with
  | idle =>
    rcases hat with hended | ⟨n, ha⟩ | hc
    · exact .inl { hended with }
    · exact .inr (.inl ⟨n, hawaiting n ha⟩)
    · exact .inr (.inr (hcollecting hc))
  | accepted n response iteration => exact hawaiting n hat
  | settled | added => exact ⟨hbetween hat.1, hclear hat.2.1, hheld hat.2.2.1, hat.2.2.2⟩
  | deciding =>
    refine ⟨hbetween hat.1, hclear hat.2.1, .inl (hheld ?_), hat.2.2.2⟩
    exact hat.2.2.1.resolve_right fun he => hemptied he.1
  | delivered => exact hcollecting hat
  | stored => exact ⟨hcollecting hat.1, hat.2⟩
  | stopping => exact ⟨hbetween hat.1, hclosed hat.2.1, hheld hat.2.2.1, hat.2.2.2⟩
  | completing => exact ⟨hbetween hat.1, hat.2⟩
  | absorbingCarry => exact ⟨hbetween hat.1, hclosed hat.2.1, hat.2.2.1, hheld hat.2.2.2⟩
  | advancing | absorbing => exact ⟨hbetween hat.1, hclosed hat.2.1, hat.2.2.1, hboth hat.2.2.2⟩
  | carrying | auditing | reading => exact ⟨hbetween hat.1, hclear hat.2.1, hboth hat.2.2⟩
  | recovering | recalling =>
    rw [hat.2.2.2] at hattaching
    contradiction
  | restoring => exact ⟨hbetween hat.1, hclear hat.2.1, hat.2.2⟩
  | rereading =>
    exact ⟨hbetween hat.1, hclear hat.2.1, fun q hq => mem_append_left _ (hat.2.2 q hq)⟩
  | tracking => exact ⟨hbetween hat.1, hclear hat.2.1, hheld hat.2.2.1, hat.2.2.2⟩

/-- A handler that routes a call returns. -/
theorem routes_work (hroutes : c.routes = []) (pc : Pc) :
    (c.work env pc).2 = .idle ∨ (c.work env pc).1.routes = [] := by
  cases pc with
  | accepted n response iteration =>
    refine .inr ?_
    unfold work settleRequest
    dsimp only
    split
    · exact hroutes
    · split_ifs <;> exact hroutes
  | settled response iteration =>
    refine .inr ?_
    simp only [work]
    split_ifs
    · exact hroutes
    · split <;> (try split_ifs) <;> exact hroutes
  | added response =>
    refine .inr ?_
    simp only [work, compact]
    split
    · split_ifs <;> exact hroutes
    · exact hroutes
  | deciding response =>
    cases response with
    | toolCall content reasoning calls =>
      obtain ⟨results, heq, -⟩ := foldl_storeToolResult ToolCall.id
        (fun tc => (env.rejected tc).getD "") (calls.filter fun tc => (env.rejected tc).isSome) c
      simp only [work, dispatch, heq]
      cases hsent : calls.filter fun tc => (env.rejected tc).isNone with
      | nil =>
        refine .inr ?_
        split_ifs <;> exact hroutes
      | cons tc rest =>
        have hpending : tc.id ∈ c.pendingTools.insert tc.id := mem_insert_self
        rw [if_neg (ne_nil_of_mem hpending)]
        exact .inl rfl
    | complete content reasoning => exact .inr hroutes
    | lengthTruncated =>
      simp only [work, compact]
      split
      · refine .inr ?_
        split_ifs <;> exact hroutes
      · exact .inl rfl
    | error => exact .inl rfl
  | delivered | carrying | advancing =>
    refine .inr ?_
    simp only [work]
    split_ifs <;> exact hroutes
  | stored callID stopLoop =>
    cases stopLoop with
    | true => exact .inr hroutes
    | false =>
      simp only [work, Bool.false_eq_true, if_false]
      split
      · exact .inl rfl
      · exact .inr hroutes
  | stopping =>
    refine .inr ?_
    obtain ⟨results, heq, -⟩ := foldl_storeToolResult (fun id : String => id)
      (fun _ => "Tool error: skipped because a terminal tool ended the iteration")
      c.queuedToolCalls c
    simp only [work, skipQueued, heq]
    split_ifs <;> exact hroutes
  | absorbingCarry | absorbing => exact .inr (by simp [work, absorb, hroutes])
  | restoring prompt => cases prompt <;> exact .inr hroutes
  | _ => exact .inr hroutes

/-- No call of a handler takes another delivery. -/
theorem not_accepted_work (pc : Pc) (m : ℕ) (response : Response) (iteration : ℕ) :
    (c.work env pc).2 ≠ .accepted m response iteration := by
  unfold work
  dsimp only
  repeat' split
  all_goals nofun

/-! ## Runs -/

def Lane.other : Lane → Lane
  | .response => .tool
  | .tool => .response

/-- **One handler works at a time**, and the books are in order. -/
structure Ordered (s : Lanes) : Prop where
  ledger : Ledger s.core
  working : ∃ lane, s.pc lane.other = .idle ∧ Assert s.core (s.pc lane)
  /-- responses are the response lane's -/
  tool_lane : ∀ n response iteration, s.pc .tool ≠ .accepted n response iteration
  /-- a result finds the handler that sent the call gone -/
  response_lane : s.pc .response = .idle ∨ s.core.routes = []

/-- The condition on a step. -/
def Apart (s : Lanes) : DeferEvent → Prop
  | .advance lane env => Timely s.core env (s.pc lane)
  | _ => True

variable {s : Lanes}

theorem ordered_born (system : List String) (prompt : String) (maxIterations : ℕ) :
    Ordered (.born system prompt maxIterations) := by
  refine ⟨⟨fun _ => rfl, nofun, nofun, nofun, fun m hm => ?_⟩, ⟨.response, rfl, .inr (.inl
    ⟨0, rfl, rfl, ⟨rfl, rfl, rfl, rfl⟩, nofun, nofun⟩)⟩, nofun, .inl rfl⟩
  obtain ⟨_, -, rfl⟩ := List.mem_map.1 hm
  rfl

theorem ordered_update {next : Pc} (hledger : Ledger core)
    (hother : s.pc lane.other = .idle) (hassert : Assert core next)
    (htool : lane = .tool → ∀ n response iteration, next ≠ .accepted n response iteration)
    (hresponse : lane = .response → next = .idle ∨ core.routes = []) :
    Ordered ⟨core, update s.pc lane next⟩ := by
  have hself : update s.pc lane next lane = next := update_self _ _ _
  have hne : update s.pc lane next lane.other = .idle := by
    rw [update_of_ne (by cases lane <;> nofun)]
    exact hother
  cases lane with
  | response =>
    refine ⟨hledger, ⟨.response, hne, hself ▸ hassert⟩, fun n r i haccepted => ?_,
      hself ▸ hresponse rfl⟩
    have hidle := hne.symm.trans haccepted
    contradiction
  | tool => exact ⟨hledger, ⟨.tool, hne, hself ▸ hassert⟩, hself ▸ htool rfl, .inl hne⟩

/-- The assertion that holds where one lane stands, and the other is idle. -/
theorem Ordered.at_lane (h : Ordered s) (lane : Lane) :
    s.pc lane = .idle ∨ (s.pc lane.other = .idle ∧ Assert s.core (s.pc lane)) := by
  obtain ⟨busy, hother, hassert⟩ := h.working
  by_cases hsame : busy = lane
  · subst hsame
    exact .inr ⟨hother, hassert⟩
  · have hlane : busy.other = lane := by cases busy <;> cases lane <;> first | rfl | contradiction
    exact .inl (hlane ▸ hother)

theorem Ordered.at_rest (h : Ordered s) (hresponse : s.pc .response = .idle)
    (htool : s.pc .tool = .idle) : Assert s.core .idle := by
  obtain ⟨lane, -, hassert⟩ := h.working
  cases lane with
  | response => exact hresponse ▸ hassert
  | tool => exact htool ▸ hassert

/-- No handler works on a loop that is over. -/
theorem ended_of_completed (hat : Assert c pc) (hcompleted : c.status = .completed) : Ended c := by
  have hrunning : c.status ≠ .running := by
    rw [hcompleted]
    nofun
  rcases hat.of_not_between fun hb => hrunning hb.running with
    ⟨-, hended | ⟨n, ha⟩⟩ | ⟨n, _, _, -, ha⟩
  · exact hended
  all_goals exact absurd ha.running hrunning

/-- **What one step keeps.** -/
theorem ordered_deferStep {e : DeferEvent} (h : Ordered s) (hapart : Apart s e)
    (hstep : deferStep s e = some s') : Ordered s' := by
  cases e with
      (simp only [deferStep] at hstep; (try split at hstep <;> try contradiction); try cases hstep)
  | attach prompt =>
    rename_i hguard
    obtain ⟨-, hattaching, hrunning, -, hout⟩ := hguard
    obtain ⟨lane, hother, hassert⟩ := h.working
    obtain ⟨hledger, hassert⟩ := @assert_attach s.core prompt h.ledger _ hassert hrunning
      hattaching hout
    exact ⟨hledger, ⟨lane, hother, hassert⟩, h.tool_lane, h.response_lane⟩
  | addTurn =>
    rename_i prompt hattaching
    obtain ⟨lane, hother, hassert⟩ := h.working
    obtain ⟨hledger, hassert⟩ := assert_addTurn h.ledger hassert hattaching
    exact ⟨hledger, ⟨lane, hother, hassert⟩, h.tool_lane, h.response_lane⟩
  | response request response =>
    rename_i hidle
    obtain ⟨⟨hrunning, hout⟩, ⟨⟩⟩ := ite_none_right_eq_some.1 hstep
    -- a request is outstanding, so the tool lane is idle and the loop waits
    have htool : s.pc .tool = .idle := by
      rcases h.at_lane .tool with htool | ⟨-, hassert⟩
      · exact htool
      rcases hassert.of_not_between fun hb => by simp [hb.outstanding] at hout with
        ⟨hidle, -⟩ | ⟨m, response, iteration, hsome, -⟩
      · exact hidle
      · exact absurd hsome (h.tool_lane m response iteration)
    have hawaiting : Awaiting s.core request := by
      rcases h.at_rest hidle htool with hended | ⟨n, ha⟩ | hcollecting
      · exact absurd hrunning hended.ended
      · rw [ha.outstanding, Option.some.injEq] at hout
        exact hout ▸ ha
      · rw [hcollecting.between.outstanding] at hout
        contradiction
    exact ordered_update h.ledger htool hawaiting nofun fun _ => .inr hawaiting.clear.routes
  | toolResult callID content stopLoop =>
    rename_i hidle
    obtain ⟨⟨hrunning, hrouted⟩, ⟨⟩⟩ := ite_none_right_eq_some.1 hstep
    -- a call is routed, so the response handler has returned
    have hresponse : s.pc .response = .idle := by
      rcases h.response_lane with hresponse | hroutes
      · exact hresponse
      · rw [hroutes] at hrouted
        contradiction
    have hcollecting : Collecting s.core := by
      rcases h.at_rest hresponse hidle with hended | ⟨n, ha⟩ | hcollecting
      · exact absurd hrunning hended.ended
      · rw [ha.clear.routes] at hrouted
        contradiction
      · exact hcollecting
    exact ordered_update h.ledger hresponse hcollecting (fun _ => nofun) nofun
  | advance lane env =>
    rcases h.at_lane lane with hidle | ⟨hother, hassert⟩
    · rw [hidle]
      have hsame : update s.pc lane Pc.idle = s.pc := by
        rw [← hidle, update_eq_self]
      have hgoal : Ordered ⟨s.core, update s.pc lane Pc.idle⟩ := by
        rw [hsame]
        exact h
      exact hgoal
    · obtain ⟨hledger, hassert'⟩ := assert_work h.ledger hassert hapart
      refine ordered_update hledger hother hassert' (fun _ => not_accepted_work (s.pc lane)) ?_
      rintro rfl
      rcases h.response_lane with hidle | hroutes
      · rw [hidle]
        exact .inl rfl
      · exact routes_work hroutes (s.pc .response)

/-- **A deferred turn is never lost** in a run whose every step is timely:
each request recorded as the carrier of an admitted turn contains it, and a
loop that completes has handled the answer to a request that contains it,
unless its iteration budget is spent. -/
theorem deferred_turn_kept (system : List String) (prompt : String) (maxIterations : ℕ)
    (es : List DeferEvent) (s : Lanes)
    (hrun : run deferStep (.born system prompt maxIterations) es = some s)
    (hapart : Along deferStep Apart (.born system prompt maxIterations) es) :
    (∀ p n, (p, n) ∈ s.core.carriers → Sent s.core n p) ∧
      (s.core.status = .completed → s.core.iterations < s.core.maxIterations →
        ∀ p ∈ s.core.admitted, ∃ n ∈ s.core.answered, Sent s.core n p) := by
  have hordered : Ordered s :=
    run_invariant_along (fun _ _ _ h hc hstep => ordered_deferStep h hc hstep)
      (ordered_born system prompt maxIterations) hapart hrun
  refine ⟨fun p n hmem => hordered.ledger.carriers (p, n) hmem, fun hcompleted hbudget p hp => ?_⟩
  rcases hordered.ledger.admitted p hp with howed | hanswered
  · have hnone : s.core.owed = [] := by
      obtain ⟨_, -, hassert⟩ := hordered.working
      rcases (ended_of_completed hassert hcompleted).settled hcompleted with hnone | _
      · exact hnone
      · omega
    rw [hnone] at howed
    contradiction
  · exact hanswered

/-- The calls of one response handler that ends by tracking a request. -/
def carryingCalls : List DeferEvent := List.replicate 8 (.advance .response {})

/-- The turn is in the conversation before the answer is handled: it is
carried, and the loop completes on the answer to its carrier. -/
theorem deferred_turn_kept_in_time : ∃ s, run deferStep (.born ["You help."] "Fix the bug." 5)
        ([.attach "And test it.", .addTurn, .response 0 (.complete "Fixed." "")] ++ carryingCalls ++
          [.response 1 (.complete "Tested." "")] ++ List.replicate 5 (.advance .response {})) =
        some s ∧
      s.core.status = .completed ∧ s.core.carriers = [("And test it.", 1)] ∧
      Sent s.core 1 "And test it." ∧ ∃ n ∈ s.core.answered, Sent s.core n "And test it." := by
  refine' ⟨_, ?run, ?_, ?_, (deferred_turn_kept _ _ _ _ _ ?run ?turns).1 _ 1 ?_,
    (deferred_turn_kept _ _ _ _ _ ?run ?turns).2 ?_ ?_ _ ?_⟩
  case turns =>
    -- the one step that could fail reads the conversation with no turn under way
    repeat refine (along_cons rfl).2 ⟨by first | exact trivial | exact rfl | nofun, ?_⟩
    exact trivial
  iterate 3 rfl
  all_goals decide

/-- **A request overtakes the turn it is to carry.** The turn is attached; the
answer is handled and a further request built before `HandleTask` adds the
turn. That request is recorded as the carrier and does not contain it, and the
loop completes on its answer with the budget unspent: no request that was
answered contains the turn. -/
theorem deferred_turn_lost_between_calls : ∃ s, run deferStep (.born ["You help."] "Fix the bug." 5)
        ([.attach "And test it.", .response 0 (.complete "Fixed." "")] ++ carryingCalls ++
          [.addTurn, .response 1 (.complete "Anything else?" "")] ++
          List.replicate 5 (.advance .response {})) = some s ∧
      s.core.status = .completed ∧ s.core.iterations < s.core.maxIterations ∧
      ("And test it.", 1) ∈ s.core.carriers ∧ ¬ Sent s.core 1 "And test it." ∧
      "And test it." ∈ s.core.admitted ∧ ¬ ∃ n ∈ s.core.answered, Sent s.core n "And test it." := by
  refine exists_end (P := fun s => s.core.status = .completed ∧
    s.core.iterations < s.core.maxIterations ∧ ("And test it.", 1) ∈ s.core.carriers ∧
    "And test it." ∈ s.core.admitted ∧
    s.core.minted.all (fun messages => turn "And test it." ∉ messages))
    ⟨_, rfl, rfl, by decide, by decide, by decide, rfl⟩ ?_
  rintro s - ⟨hstatus, hbudget, hcarrier, hadmitted, hminted⟩
  have hnever : ∀ n, ¬ Sent s.core n "And test it." := by
    rintro n ⟨messages, hget, hmem⟩
    have hnot := List.all_eq_true.1 hminted messages (mem_of_getElem? hget)
    simp [hmem] at hnot
  refine ⟨hstatus, hbudget, hcarrier, hnever 1, hadmitted, ?_⟩
  rintro ⟨n, -, hsent⟩
  exact hnever n hsent

end SemStreams.AgenticLoop
