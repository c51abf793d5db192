import SemStreams.Lib.Run
import SemStreams.Lib.Window
import SemStreams.AgenticLoop.Conversation
/-!
# agentic-loop — a batch of tool calls, from the response to the next request

An assistant response may ask for several tool calls. The loop answers some
itself (a call without a name, one the governance rejects, one it cannot
dispatch), sends out one of the others and queues the rest. Results are
collected until the batch is complete; then they join the conversation and
the next request is minted. A result may instead pause the loop for a human
approval, or end the iteration, in which case a turn the user added meanwhile
is carried into another request.

The next request has to show the model the whole batch (`batches_complete`):
`repairToolPairs` removes a group with a missing answer. The approval gate
drops the queued calls, and nothing answers them.

A handler is one step: crashes and cancelled contexts are left out, and so is
compaction.
-/

namespace SemStreams.AgenticLoop

open List Option

/-- A tool execution is identified by its request, its call and the call's
place in the batch; the source hashes the three. -/
structure ExecutionID where
  requestID : ℕ
  callID : String
  ordinal : ℕ
deriving DecidableEq

/-- A call with its execution correlation. -/
structure StampedCall where
  call : ToolCall
  executionID : ExecutionID
deriving DecidableEq

/-- The error of a tool result, by its prefix. -/
inductive ToolError
  | none
  | approvalRequired (reason : String)
  | approvalRejected (reason : String)
  | other (text : String)
deriving DecidableEq

def ToolError.text : ToolError → String
  | .none => ""
  | .approvalRequired reason => "approval_required: " ++ reason
  | .approvalRejected reason => "approval_rejected: " ++ reason
  | .other text => text

def ToolError.isApprovalRequired : ToolError → Bool
  | .approvalRequired _ => true
  | _ => false

/-- `agentic.ToolResult`. -/
structure ToolResult where
  callID : String
  executionID : ExecutionID
  name : String
  content : String := ""
  error : ToolError := .none
  stopLoop : Bool := false
deriving DecidableEq

/-- `PendingApprovalState`. -/
structure PendingApproval where
  callID : String
  executionID : ExecutionID
  toolName : String
  arguments : String
deriving DecidableEq

inductive LoopStatus
  | running
  | awaitingApproval (gate : PendingApproval)
  | terminal
deriving DecidableEq

/-- The turn the user added while a request was outstanding, and whether a
request that is out carries it. -/
structure DeferredTurn where
  prompt : String
  carried : Bool
deriving DecidableEq

/-- A minted request: what the model is sent, how many messages the sweep
removed for it, and the batches the model had asked for by then. -/
structure Minted where
  messages : List ChatMessage
  removed : ℕ
  batches : List (List ToolCall)

/-- One loop as the manager, the context manager and the entity hold it. -/
structure LoopState where
  status : LoopStatus
  /-- the regions of the context outside the recent history -/
  system : List ChatMessage
  recent : List ChatMessage
  outstanding : Bool
  pendingTools : List String
  queuedToolCalls : List StampedCall
  pendingToolResults : Window ToolResult.executionID
  /-- the executions whose results are routed to the loop -/
  toolCallToLoop : List ExecutionID
  executionIDToCall : ExecutionID → Option ToolCall
  deferred : Option DeferredTurn
  iterations : ℕ
  maxIterations : ℕ
  taskPrompt : String
  minted : List Minted
  batches : List (List ToolCall)

open LoopState

/-- How the surroundings answer one handler call. -/
structure Surroundings where
  timedOut : Bool := false
  /-- the governance verdict on a call: a reason if it is rejected -/
  verdict : StampedCall → Option String := fun _ => none
  /-- the call can be marshalled and addressed -/
  dispatchable : StampedCall → Bool := fun _ => true
  /-- the budget line and the working list `prependIterationContext` adds -/
  preface : List String := []
  /-- a truncated response may be retried after compaction -/
  canRetry : Bool := true

section Manager

variable (s : LoopState)

def LoopState.addPendingTool (callID : String) : LoopState :=
  { s with pendingTools := s.pendingTools.insert callID }

def LoopState.removePendingTool (callID : String) : LoopState :=
  { s with pendingTools := s.pendingTools.filter (· ≠ callID) }

def LoopState.storeToolResult (r : ToolResult) : LoopState :=
  { s with pendingToolResults := s.pendingToolResults.put r }

/-- The tracking of `dispatchToolCall`. -/
def LoopState.track (c : StampedCall) : LoopState :=
  { s with
    toolCallToLoop := s.toolCallToLoop.insert c.executionID
    executionIDToCall := fun e => if e = c.executionID then some c.call else s.executionIDToCall e }

/-- `dispatchToolCall`: the bookkeeping stays when the dispatch then fails. -/
def LoopState.dispatchToolCall (c : StampedCall) : LoopState := (s.addPendingTool c.call.id).track c

def LoopState.synthesizeToolFailure (c : StampedCall) (reason : String) : LoopState :=
  let name :=
    if c.call.name ≠ "" then c.call.name
    else ((s.executionIDToCall c.executionID).map ToolCall.name).getD "unknown_tool"
  s.storeToolResult ⟨c.call.id, c.executionID, name, "", .other reason, false⟩

/-- `tryDispatchOrSynthesize`: whether the call went out. -/
def LoopState.tryDispatchOrSynthesize (env : Surroundings) (c : StampedCall) : Bool × LoopState :=
  let dispatched := s.dispatchToolCall c
  if env.dispatchable c then (true, dispatched)
  else
    (false, (dispatched.removePendingTool c.call.id).synthesizeToolFailure c
      "tool dispatch failed: json: unsupported type")

end Manager

/-- The serial dispatch of `handleToolCallResponse`: the first call that goes
out claims the slot, the calls behind it are queued. -/
def dispatchFirst (env : Surroundings) : LoopState → List StampedCall → LoopState
  | s, [] => s
  | s, c :: rest =>
    match s.tryDispatchOrSynthesize env c with
    | (true, s) => { s with queuedToolCalls := s.queuedToolCalls ++ rest }
    | (false, s) => dispatchFirst env s rest

/-- `dispatchedFromQueue`, bounded by the length of the queue. -/
def dispatchedFromQueue (env : Surroundings) : ℕ → LoopState → Bool × LoopState
  | 0, s => (false, s)
  | n + 1, s =>
    match s.queuedToolCalls with
    | [] => (false, s)
    | c :: rest =>
      match ({ s with queuedToolCalls := rest } : LoopState).tryDispatchOrSynthesize env c with
      | (true, s) => (true, s)
      | (false, s) => dispatchedFromQueue env n s

/-- `synthesizeSkippedQueuedTools`, bounded likewise. -/
def synthesizeSkippedQueuedTools (terminalTool : String) : ℕ → LoopState → LoopState
  | 0, s => s
  | n + 1, s =>
    match s.queuedToolCalls with
    | [] => s
    | c :: rest =>
      let name := if terminalTool = "" then "a terminal tool" else terminalTool
      synthesizeSkippedQueuedTools terminalTool n
        (({ s with queuedToolCalls := rest } : LoopState).synthesizeToolFailure c
          ("skipped because " ++ name ++ " ended the iteration"))

/-- `buildToolMessages`, for one result. -/
def toolMessage (s : LoopState) (r : ToolResult) : ChatMessage where
  role := .tool
  toolCallID := r.callID
  name := if r.name = "" then ((s.executionIDToCall r.executionID).map ToolCall.name).getD "" else r.name
  content :=
    if r.content ≠ "" then r.content
    else if r.error ≠ .none then "Tool error: " ++ r.error.text
    else "(empty result)"
  isError := r.error ≠ .none

/-- `absorbToolResultsIntoContext`: the collected results join the recent
history, and their executions are routed no longer. -/
def LoopState.absorbToolResults (s : LoopState) : LoopState :=
  { s with
    recent := s.recent ++ s.pendingToolResults.items.map (toolMessage s)
    pendingToolResults := .empty
    toolCallToLoop := s.toolCallToLoop.filter fun e =>
      e ∉ s.pendingToolResults.items.map ToolResult.executionID }

/-- A turn was deferred that no request carries. -/
def LoopState.hasPendingContinuation (s : LoopState) : Bool :=
  s.deferred.any fun turn => !turn.carried

/-- The request is built and tracked; a deferred turn is carried by it from
here on. -/
def LoopState.mint (s : LoopState) (env : Surroundings) (messages : List ChatMessage) (removed : ℕ) :
    LoopState :=
  let budget : List ChatMessage :=
    env.preface.map fun line => { role := .system, content := line }
  { s with
    outstanding := true
    deferred := s.deferred.map fun turn => { turn with carried := true }
    minted := ⟨budget ++ messages, removed, s.batches⟩ :: s.minted }

/-- The turns `recoverEmptyContext` puts into an emptied context. -/
def recoveredTurns (s : LoopState) : List ChatMessage :=
  let prompt := if s.taskPrompt = "" then "Continue with the task." else s.taskPrompt
  let synthetic : ChatMessage :=
    { role := .user
      content := "[Context recovered after tool pair cleanup]\n\nOriginal task: " ++ prompt ++
        "\n\nPrevious tool calls encountered errors. " ++
        "Please continue or try a different approach." }
  synthetic :: (s.deferred.toList.map fun turn => { role := .user, content := turn.prompt })

/-- `publishIterationRequest`, and `emitRetryRequest` with it: the sweep, the
context, and the task prompt again where the context holds no turn. -/
def LoopState.publishIterationRequest (s : LoopState) (env : Surroundings) : LoopState :=
  let (recent, removed) := repairToolPairs s.recent
  let s := { s with recent }
  let s :=
    if hasUserOrAssistantMessage (s.system ++ s.recent) then s
    else { s with recent := s.recent ++ recoveredTurns s }
  s.mint env (s.system ++ s.recent) removed

def LoopState.settle (s : LoopState) : LoopState := { s with status := .terminal }

/-- `handleToolsComplete`; a spent budget ends the loop. -/
def LoopState.handleToolsComplete (s : LoopState) (env : Surroundings) : LoopState :=
  if s.maxIterations ≤ s.iterations then ({ s with queuedToolCalls := [] } : LoopState).settle
  else
    ({ s with iterations := s.iterations + 1 } : LoopState).absorbToolResults.publishIterationRequest
      env

/-- `carryDeferredContinuation`; a spent budget carries nothing. -/
def LoopState.carryDeferredContinuation (s : LoopState) (env : Surroundings) : Option LoopState :=
  if s.maxIterations ≤ s.iterations then none
  else some (({ s with iterations := s.iterations + 1 } : LoopState).publishIterationRequest env)

/-- `stampToolExecutionCorrelation`: a call without an id fails the batch. -/
def stampToolExecutionCorrelation (requestID : ℕ) (calls : List ToolCall) :
    Option (List StampedCall) :=
  if calls.any fun tc => tc.id = "" then none
  else some (calls.mapIdx fun i tc => ⟨tc, ⟨requestID, tc.id, i + 1⟩⟩)

/-- The answer to a call without a name. -/
def invalidToolCall (c : StampedCall) : ToolResult where
  callID := c.call.id
  executionID := c.executionID
  name := "invalid_tool_call"
  error := .other
    "tool call had empty function name — call a specific tool by name or respond with text"

def rejectedToolCall (c : StampedCall) (reason : String) : ToolResult where
  callID := c.call.id
  executionID := c.executionID
  name := c.call.name
  error := .other ("tool call rejected by governance: " ++ reason)

/-- `handleToolCallResponse` on a stamped batch: the calls without a name and
the rejected ones are answered, the others dispatched serially. -/
def LoopState.handleToolCallResponse (s : LoopState) (env : Surroundings)
    (calls : List StampedCall) : LoopState :=
  let s := (calls.filter fun c => c.call.name = "").foldl
    (fun s c => s.storeToolResult (invalidToolCall c)) s
  let valid := calls.filter fun c => c.call.name ≠ ""
  let s := (valid.filter fun c => (env.verdict c).isSome).foldl
    (fun s c => s.storeToolResult (rejectedToolCall c ((env.verdict c).getD ""))) s
  dispatchFirst env s (valid.filter fun c => (env.verdict c).isNone)

/-- A model response, by its status. The model component reports tool calls
under no other status. -/
inductive Response
  | toolCall (content reasoning : String) (calls : List ToolCall)
  | complete (content reasoning : String)
  | lengthTruncated
  | error

def assistantMessage (content reasoning : String) (calls : List ToolCall) : ChatMessage :=
  { role := .assistant, content, reasoningContent := reasoning, toolCalls := calls }

/-- A message that is not empty is kept in the conversation. -/
def LoopState.addAssistantMessage (s : LoopState) (content reasoning : String)
    (calls : List ToolCall) : LoopState :=
  if content ≠ "" ∨ reasoning ≠ "" ∨ calls ≠ [] then
    { s with recent := s.recent ++ [assistantMessage content reasoning calls] }
  else s

/-- The conversation with a response that asks for calls, and the batch among
those the model has asked for. -/
def LoopState.openBatch (s : LoopState) (content reasoning : String) (calls : List ToolCall) :
    LoopState :=
  { s.addAssistantMessage content reasoning calls with
    batches := if calls = [] then s.batches else s.batches ++ [calls] }

/-- `SettleRequest`, and `settleTruncatedRequest` for a truncated answer: an
answer settles the deferral its request carried, a truncated one does not. -/
def LoopState.settleRequest (s : LoopState) : Response → LoopState
  | .lengthTruncated => { s with outstanding := false }
  | _ => { s with
      outstanding := false
      deferred := s.deferred.filter fun turn => !turn.carried }

/-- The arms of `HandleModelResponse`, by the status of the response. A handler
error is the loop's failure. -/
def LoopState.handleStatus (s : LoopState) (env : Surroundings) : Response → LoopState
  | .toolCall content reasoning calls =>
    let s := s.openBatch content reasoning calls
    match stampToolExecutionCorrelation s.minted.length calls with
    | none => s.settle
    | some stamped =>
      let s := s.handleToolCallResponse env stamped
      if s.pendingTools = [] then s.handleToolsComplete env else s
  | .complete content reasoning =>
    let s := s.addAssistantMessage content reasoning []
    if s.hasPendingContinuation then (s.carryDeferredContinuation env).getD s.settle
    else s.settle
  | .lengthTruncated => if env.canRetry then s.publishIterationRequest env else s.settle
  | .error => s.settle

/-- `HandleModelResponse` on the answer to the outstanding request. -/
def LoopState.handleModelResponse (s : LoopState) (env : Surroundings) (response : Response) :
    LoopState :=
  if s.status = .terminal then s
  else
    let s := s.settleRequest response
    if env.timedOut ∨ s.maxIterations ≤ s.iterations then s.settle
    else s.handleStatus env response

/-- `HandleToolResult` behind the terminal guard and the timeout. -/
def LoopState.applyToolResult (s : LoopState) (env : Surroundings) (r : ToolResult) : LoopState :=
  let s := (s.storeToolResult r).removePendingTool r.callID
  match s.status with
  -- a sibling of the gated call is absorbed
  | .awaitingApproval _ => s
  | _ =>
    if r.error.isApprovalRequired then
      -- `beginApprovalGate`: the queued siblings are dropped
      let tracked := s.executionIDToCall r.executionID
      let toolName := if r.name = "" then (tracked.map ToolCall.name).getD "" else r.name
      { s with
        status := .awaitingApproval ⟨r.callID, r.executionID, toolName,
          (tracked.map ToolCall.arguments).getD ""⟩
        queuedToolCalls := [] }
    else if r.stopLoop then
      let carrying := s.hasPendingContinuation
      let s := if carrying then synthesizeSkippedQueuedTools r.name s.queuedToolCalls.length s else s
      let s := { s with queuedToolCalls := [] }
      if carrying then (s.absorbToolResults.carryDeferredContinuation env).getD s.settle
      else s.settle
    else
      match dispatchedFromQueue env s.queuedToolCalls.length s with
      | (true, s) => s
      | (false, s) => if s.pendingTools = [] then s.handleToolsComplete env else s

/-- A delivered tool result: one that is routed nowhere, or asks for an
approval that was answered, has no effect. -/
def LoopState.handleToolResult (s : LoopState) (env : Surroundings) (r : ToolResult) : LoopState :=
  if s.status = .terminal ∨ r.executionID ∉ s.toolCallToLoop then s
  else if r.error.isApprovalRequired ∧ s.status = .running ∧
      r.executionID ∈ s.pendingToolResults.items.map ToolResult.executionID then s
  else if env.timedOut then s.settle
  else s.applyToolResult env r

/-- The answer of the human. -/
inductive Decision
  | approve
  | modify (arguments : String)
  | reject (reason : String)

/-- `HandleApprovalResponse`. An answer to another gate is dropped. -/
def LoopState.handleApprovalResponse (s : LoopState) (env : Surroundings)
    (executionID : ExecutionID) (decision : Decision) : LoopState :=
  match s.status with
  | .awaitingApproval gate =>
    if gate.executionID ≠ executionID then s
    else
      let s := { s with status := .running }
      if env.timedOut then s.settle
      else
        match decision with
        | .approve =>
          s.dispatchToolCall ⟨⟨gate.callID, gate.toolName, gate.arguments⟩, gate.executionID⟩
        | .modify arguments =>
          s.dispatchToolCall ⟨⟨gate.callID, gate.toolName, arguments⟩, gate.executionID⟩
        | .reject reason =>
          s.applyToolResult env
            { callID := gate.callID, executionID := gate.executionID, name := gate.toolName
              error := .approvalRejected reason }
  | _ => s

/-- A continuation turn: refused while work is in flight, deferred while a
request is outstanding, and otherwise sent at once. -/
def LoopState.handleTask (s : LoopState) (env : Surroundings) (prompt : String) : LoopState :=
  if s.status ≠ .running ∨ s.pendingTools ≠ [] then s
  else
    let turn : ChatMessage := { role := .user, content := prompt }
    if s.outstanding then
      { s with recent := s.recent ++ [turn], deferred := some ⟨prompt, false⟩ }
    else
      let s := { s with recent := s.recent ++ [turn] }
      s.mint env (s.system ++ s.recent) 0

inductive LoopEvent
  | response (r : Response) (env : Surroundings)
  | toolResult (r : ToolResult) (env : Surroundings)
  | approval (executionID : ExecutionID) (decision : Decision) (env : Surroundings)
  | task (prompt : String) (env : Surroundings)
  /-- a cancel, or any other end of the loop -/
  | ended

def Response.calls : Response → List ToolCall
  | .toolCall _ _ calls => calls
  | _ => []

/-- One handler call. A response answers the outstanding request and its call
ids are new to the loop; an executor names the call it executed. -/
def loopStep (s : LoopState) : LoopEvent → Option LoopState
  | .response r env =>
    if s.outstanding = true ∧ (r.calls.map ToolCall.id).Nodup ∧
        ∀ tc ∈ r.calls, tc.id ∉ s.batches.flatten.map ToolCall.id then
      some (s.handleModelResponse env r)
    else none
  | .toolResult r env =>
    if r.callID = r.executionID.callID then some (s.handleToolResult env r) else none
  | .approval executionID decision env => some (s.handleApprovalResponse env executionID decision)
  | .task prompt env => some (s.handleTask env prompt)
  | .ended => some s.settle

/-- A loop whose first request is out. -/
def LoopState.born (system : List String) (prompt : String) (maxIterations : ℕ) : LoopState where
  status := .running
  system := system.map fun text => { role := .system, content := text }
  recent := [{ role := .user, content := prompt }]
  outstanding := true
  pendingTools := []
  queuedToolCalls := []
  pendingToolResults := .empty
  toolCallToLoop := []
  executionIDToCall := fun _ => none
  deferred := none
  iterations := 0
  maxIterations := maxIterations
  taskPrompt := prompt
  minted := []
  batches := []

/-! ## Accounting for the calls of a batch -/

/-- The call has an answer, is in flight, or waits its turn. -/
def Accounted (s : LoopState) (c : StampedCall) : Prop :=
  (∃ r ∈ s.pendingToolResults.items, r.executionID = c.executionID) ∨
    c.call.id ∈ s.pendingTools ∨ c ∈ s.queuedToolCalls

/-- What stamping gives the calls of a batch. -/
structure Stamped (batch : List StampedCall) : Prop where
  exec_call : ∀ c ∈ batch, c.executionID.callID = c.call.id
  eq_of_id : ∀ c ∈ batch, ∀ c' ∈ batch, c.call.id = c'.call.id → c = c'

/-- The manager's books are about the calls of one batch. -/
structure Open (batch : List StampedCall) (s : LoopState) : Prop where
  result_of : ∀ r ∈ s.pendingToolResults.items,
    ∃ c ∈ batch, c.executionID = r.executionID ∧ c.call.id = r.callID
  routed_of : ∀ e ∈ s.toolCallToLoop, ∃ c ∈ batch, c.executionID = e
  queued_of : ∀ c ∈ s.queuedToolCalls, c ∈ batch
  pending_of : ∀ id ∈ s.pendingTools, ∃ c ∈ batch, c.call.id = id

/-- The loop apart from the manager's books. -/
def LoopState.frame (s : LoopState) : LoopState :=
  { s with
    pendingTools := [], queuedToolCalls := [], pendingToolResults := .empty
    toolCallToLoop := [], executionIDToCall := fun _ => none }

/-- **A step of the books**: they stay about the batch, no call that was
accounted for is lost, and nothing else changes. -/
structure Advances (batch : List StampedCall) (s s' : LoopState) : Prop where
  opened : Open batch s → Open batch s'
  accounted : ∀ c ∈ batch, Accounted s c → Accounted s' c
  frame_eq : s'.frame = s.frame

section Books

variable {batch : List StampedCall} {s : LoopState} {c : StampedCall} {r : ToolResult}
  {env : Surroundings}

theorem Open.mono (h : Open batch s) (hsub : ∀ c ∈ batch, c ∈ batch') :
    Open batch' s where
  result_of r hr := (h.result_of r hr).imp fun c hc => hc.imp_left (hsub c)
  routed_of e he := (h.routed_of e he).imp fun c hc => hc.imp_left (hsub c)
  queued_of c hc := hsub c (h.queued_of c hc)
  pending_of id hid := (h.pending_of id hid).imp fun c hc => hc.imp_left (hsub c)

theorem Advances.refl (s : LoopState) : Advances batch s s := ⟨id, fun _ _ h => h, rfl⟩

theorem Advances.trans (h : Advances batch s s') (h' : Advances batch s' s'') :
    Advances batch s s'' :=
  ⟨fun ho => h'.opened (h.opened ho), fun c hc ha => h'.accounted c hc (h.accounted c hc ha),
    h'.frame_eq.trans h.frame_eq⟩

/-- What the books are no part of stays the same. -/
theorem Advances.same (h : Advances batch s s') {α : Type} (field : LoopState → α)
    (hfield : ∀ s, field s.frame = field s) : field s' = field s := by
  rw [← hfield s', h.frame_eq, hfield s]

theorem advances_storeToolResult (hc : c ∈ batch) (hexec : r.executionID = c.executionID)
    (hid : r.callID = c.call.id) : Advances batch s (s.storeToolResult r) := by
  refine ⟨fun ho => { ho with result_of := fun r' hr' => ?_ }, fun c' _ ha => ?_, rfl⟩
  · rcases Window.mem_put.1 hr' with rfl | ⟨hr', -⟩
    · exact ⟨c, hc, hexec.symm, hid.symm⟩
    · exact ho.result_of r' hr'
  · rcases ha with ⟨r', hr', he⟩ | ha
    · by_cases hsame : r'.executionID = r.executionID
      · exact .inl ⟨r, Window.mem_put.2 (.inl rfl), hsame.symm.trans he⟩
      · exact .inl ⟨r', Window.mem_put.2 (.inr ⟨hr', hsame⟩), he⟩
    · exact .inr ha

theorem accounted_storeToolResult (hexec : r.executionID = c.executionID) :
    Accounted (s.storeToolResult r) c :=
  .inl ⟨r, Window.mem_put.2 (.inl rfl), hexec⟩

/-- An approved call goes out again under its execution, perhaps with other
arguments. -/
theorem advances_dispatchToolCall (hc : ∃ b ∈ batch, b.executionID = c.executionID ∧
    b.call.id = c.call.id) : Advances batch s (s.dispatchToolCall c) := by
  obtain ⟨b, hb, hexec, hcall⟩ := hc
  refine ⟨fun ho => ⟨ho.result_of, fun e he => ?_, ho.queued_of, fun id hid => ?_⟩,
    fun c' _ ha => ?_, rfl⟩
  · rcases mem_insert_iff.1 he with rfl | he
    · exact ⟨b, hb, hexec⟩
    · exact ho.routed_of e he
  · rcases mem_insert_iff.1 hid with rfl | hid
    · exact ⟨b, hb, hcall⟩
    · exact ho.pending_of id hid
  · rcases ha with ha | ha | ha
    · exact .inl ha
    · exact .inr (.inl (mem_insert_iff.2 (.inr ha)))
    · exact .inr (.inr ha)

theorem advances_synthesizeToolFailure (hc : c ∈ batch) :
    Advances batch s (s.synthesizeToolFailure c reason) :=
  advances_storeToolResult hc rfl rfl

theorem accounted_synthesizeToolFailure :
    Accounted (s.synthesizeToolFailure c reason) c :=
  accounted_storeToolResult rfl

/-- A pending call whose answer is stored may leave the pending set. -/
theorem advances_removePendingTool (hb : Stamped batch) (hc : c ∈ batch)
    (hanswer : ∃ r ∈ s.pendingToolResults.items, r.executionID = c.executionID) :
    Advances batch s (s.removePendingTool c.call.id) := by
  refine ⟨fun ho => { ho with pending_of := fun id hid => ?_ }, fun c' hc' ha => ?_, rfl⟩
  · exact ho.pending_of id (mem_of_mem_filter hid)
  · rcases ha with ha | ha | ha
    · exact .inl ha
    · by_cases hid : c'.call.id = c.call.id
      · obtain rfl := hb.eq_of_id c' hc' c hc hid
        exact .inl hanswer
      · exact .inr (.inl (mem_filter.2 ⟨ha, by simpa using hid⟩))
    · exact .inr (.inr ha)

/-- A result is stored and its call no longer pending. -/
theorem advances_answer (hb : Stamped batch) (hc : c ∈ batch) (hexec : r.executionID = c.executionID)
    (hid : r.callID = c.call.id) :
    Advances batch s ((s.storeToolResult r).removePendingTool r.callID) := by
  refine (advances_storeToolResult hc hexec hid).trans ?_
  rw [hid]
  exact advances_removePendingTool hb hc ⟨r, Window.mem_put.2 (.inl rfl), hexec⟩

/-- A call that is tried is accounted for, sent or not. -/
theorem tryDispatchOrSynthesize_spec (hb : Stamped batch) (hc : c ∈ batch) :
    Advances batch s (s.tryDispatchOrSynthesize env c).2 ∧
      Accounted (s.tryDispatchOrSynthesize env c).2 c ∧
      ((s.tryDispatchOrSynthesize env c).1 →
        (s.tryDispatchOrSynthesize env c).2.pendingTools ≠ []) := by
  have hdispatch := @advances_dispatchToolCall batch s c ⟨c, hc, rfl, rfl⟩
  unfold tryDispatchOrSynthesize
  cases env.dispatchable c with
  | true =>
    have hpending : c.call.id ∈ (s.dispatchToolCall c).pendingTools :=
      mem_insert_iff.2 (.inl rfl)
    exact ⟨hdispatch, .inr (.inl hpending), fun _ => ne_nil_of_mem hpending⟩
  | false =>
    -- removed from the pending set first and answered then: the order of the two does not matter
    simp only [Bool.false_eq_true, if_false, false_implies, and_true, synthesizeToolFailure]
    exact ⟨hdispatch.trans (advances_answer (r := ⟨c.call.id, c.executionID, _, "", .other _, false⟩)
      hb hc rfl rfl), accounted_storeToolResult rfl⟩

/-- Taking the head of the queue in hand. -/
theorem advances_dequeue (hqueue : s.queuedToolCalls = c :: rest)
    (h : Advances batch { s with queuedToolCalls := rest } s') (hc : Accounted s' c) :
    Advances batch s s' := by
  refine ⟨fun ho => h.opened { ho with queued_of := fun c' hc' => ?_ },
    fun c' hc' ha => ?_, h.frame_eq⟩
  · exact ho.queued_of c' (by rw [hqueue]; exact mem_cons_of_mem c hc')
  · rcases ha with ha | ha | ha
    · exact h.accounted c' hc' (.inl ha)
    · exact h.accounted c' hc' (.inr (.inl ha))
    · rw [hqueue, mem_cons] at ha
      rcases ha with rfl | ha
      · exact hc
      · exact h.accounted c' hc' (.inr (.inr ha))

theorem Accounted.enqueue (h : Accounted s c) (rest : List StampedCall) :
    Accounted { s with queuedToolCalls := s.queuedToolCalls ++ rest } c :=
  h.imp_right (Or.imp_right (mem_append_left rest))

theorem dispatchFirst_spec (hb : Stamped batch) (calls : List StampedCall)
    (hcalls : ∀ c ∈ calls, c ∈ batch) (s : LoopState) :
    Advances batch s (dispatchFirst env s calls) ∧
      (∀ c ∈ calls, Accounted (dispatchFirst env s calls) c) ∧
      ((dispatchFirst env s calls).pendingTools = [] →
        (dispatchFirst env s calls).queuedToolCalls = s.queuedToolCalls) := by
  induction calls generalizing s with
  | nil => exact ⟨Advances.refl s, by simp, fun _ => rfl⟩
  | cons c rest ih =>
    obtain ⟨hadv, hacc, hsent⟩ :=
      @tryDispatchOrSynthesize_spec batch s c env hb (hcalls c (by simp))
    have hqueue : (s.tryDispatchOrSynthesize env c).2.queuedToolCalls = s.queuedToolCalls := by
      unfold tryDispatchOrSynthesize
      split <;> rfl
    unfold dispatchFirst
    generalize s.tryDispatchOrSynthesize env c = out at hadv hacc hsent hqueue
    obtain ⟨sent, s₁⟩ := out
    cases sent with
    | true =>
      refine ⟨⟨fun ho => ?_, fun c' hc' ha => (hadv.accounted c' hc' ha).enqueue rest, hadv.frame_eq⟩,
        fun c' hc' => ?_, fun hnil => absurd hnil (hsent rfl)⟩
      · obtain ⟨h₁, h₂, h₃, h₄⟩ := hadv.opened ho
        refine ⟨h₁, h₂, fun c' hc' => ?_, h₄⟩
        rcases mem_append.1 hc' with hc' | hc'
        · exact h₃ c' hc'
        · exact hcalls c' (by simp [hc'])
      · rcases mem_cons.1 hc' with rfl | hc'
        · exact hacc.enqueue rest
        · exact .inr (.inr (mem_append_right _ hc'))
    | false =>
      obtain ⟨hadv', hacc', hnil'⟩ := ih (fun c' hc' => hcalls c' (by simp [hc'])) s₁
      refine ⟨hadv.trans hadv', fun c' hc' => ?_, fun hnil => (hnil' hnil).trans hqueue⟩
      rcases mem_cons.1 hc' with rfl | hc'
      · exact hadv'.accounted c' (hcalls c' (by simp)) hacc
      · exact hacc' c' hc'

/-- The queue is drained until a call goes out. -/
theorem dispatchedFromQueue_spec (hb : Stamped batch) (s : LoopState) (n : ℕ)
    (hn : s.queuedToolCalls.length = n) (ho : Open batch s) :
    Advances batch s (dispatchedFromQueue env n s).2 ∧
      ((dispatchedFromQueue env n s).1 → (dispatchedFromQueue env n s).2.pendingTools ≠ []) ∧
      ((dispatchedFromQueue env n s).1 = false →
        (dispatchedFromQueue env n s).2.queuedToolCalls = []) := by
  induction n generalizing s with
  | zero => exact ⟨Advances.refl s, by simp [dispatchedFromQueue], fun _ => length_eq_zero_iff.1 hn⟩
  | succ n ih =>
    obtain ⟨c, rest, hqueue⟩ := exists_cons_of_length_eq_add_one hn
    have hlen : rest.length = n := by simpa [hqueue] using hn
    have hc : c ∈ batch := ho.queued_of c (by simp [hqueue])
    obtain ⟨hadv, hacc, hsent⟩ := @tryDispatchOrSynthesize_spec batch
      { s with queuedToolCalls := rest } c env hb hc
    have hrest : (({ s with queuedToolCalls := rest } : LoopState).tryDispatchOrSynthesize
        env c).2.queuedToolCalls = rest := by
      unfold tryDispatchOrSynthesize
      split <;> rfl
    have hstep := advances_dequeue hqueue hadv hacc
    unfold dispatchedFromQueue
    simp only [hqueue]
    generalize ({ s with queuedToolCalls := rest } : LoopState).tryDispatchOrSynthesize env c = out
      at hsent hrest hstep
    obtain ⟨sent, s₁⟩ := out
    cases sent with
    | true => exact ⟨hstep, fun _ => hsent rfl, by simp⟩
    | false =>
      obtain ⟨hadv', hsent', hdrained⟩ :=
        ih s₁ ((congrArg List.length hrest).trans hlen) (hstep.opened ho)
      exact ⟨hstep.trans hadv', hsent', hdrained⟩

/-- A carried terminal result answers every queued call. -/
theorem synthesizeSkippedQueuedTools_spec (s : LoopState) (n : ℕ)
    (hn : s.queuedToolCalls.length = n) (ho : Open batch s) :
    Advances batch s (synthesizeSkippedQueuedTools terminalTool n s) ∧
      (synthesizeSkippedQueuedTools terminalTool n s).queuedToolCalls = [] ∧
      (synthesizeSkippedQueuedTools terminalTool n s).pendingTools = s.pendingTools := by
  induction n generalizing s with
  | zero => exact ⟨Advances.refl s, length_eq_zero_iff.1 hn, rfl⟩
  | succ n ih =>
    obtain ⟨c, rest, hqueue⟩ := exists_cons_of_length_eq_add_one hn
    have hlen : rest.length = n := by simpa [hqueue] using hn
    have hc : c ∈ batch := ho.queued_of c (by simp [hqueue])
    unfold synthesizeSkippedQueuedTools
    simp only [hqueue]
    have hstep : Advances batch s (({ s with queuedToolCalls := rest } : LoopState).synthesizeToolFailure
        c ("skipped because " ++ (if terminalTool = "" then "a terminal tool" else terminalTool) ++
          " ended the iteration")) :=
      advances_dequeue hqueue (advances_synthesizeToolFailure hc) accounted_synthesizeToolFailure
    obtain ⟨hadv, hempty, hpending⟩ := ih _ hlen (hstep.opened ho)
    exact ⟨hstep.trans hadv, hempty, hpending⟩

/-- Answering several calls of the batch at once. -/
theorem foldl_storeToolResult_spec (answer : StampedCall → ToolResult)
    (hexec : ∀ c, (answer c).executionID = c.executionID) (hid : ∀ c, (answer c).callID = c.call.id)
    (calls : List StampedCall) (hcalls : ∀ c ∈ calls, c ∈ batch) (s : LoopState) :
    Advances batch s (calls.foldl (fun s c => s.storeToolResult (answer c)) s) ∧
      (∀ c ∈ calls, Accounted (calls.foldl (fun s c => s.storeToolResult (answer c)) s) c) ∧
      (calls.foldl (fun s c => s.storeToolResult (answer c)) s).queuedToolCalls =
        s.queuedToolCalls := by
  induction calls generalizing s with
  | nil => exact ⟨Advances.refl s, by simp, rfl⟩
  | cons c rest ih =>
    have hc := hcalls c (by simp)
    obtain ⟨hadv, hacc, hqueue⟩ :=
      ih (fun c' hc' => hcalls c' (by simp [hc'])) (s.storeToolResult (answer c))
    refine ⟨(advances_storeToolResult hc (hexec c) (hid c)).trans hadv, fun c' hc' => ?_, hqueue⟩
    rcases mem_cons.1 hc' with rfl | hc'
    · exact hadv.accounted c' hc (accounted_storeToolResult (hexec c'))
    · exact hacc c' hc'

/-- **Every call of a batch is accounted for when its response has been
handled**; and where nothing went out, everything is answered. -/
theorem handleToolCallResponse_spec (hb : Stamped batch) (s : LoopState)
    (hqueue : s.queuedToolCalls = []) :
    Advances batch s (s.handleToolCallResponse env batch) ∧
      (∀ c ∈ batch, Accounted (s.handleToolCallResponse env batch) c) ∧
      ((s.handleToolCallResponse env batch).pendingTools = [] →
        (s.handleToolCallResponse env batch).queuedToolCalls = []) := by
  unfold handleToolCallResponse
  obtain ⟨hadv₁, hacc₁, hq₁⟩ := @foldl_storeToolResult_spec batch invalidToolCall
    (fun _ => rfl) (fun _ => rfl) (batch.filter fun c => c.call.name = "")
    (fun c hc => mem_of_mem_filter hc) s
  obtain ⟨hadv₂, hacc₂, hq₂⟩ := @foldl_storeToolResult_spec batch
    (fun c => rejectedToolCall c ((env.verdict c).getD "")) (fun _ => rfl) (fun _ => rfl)
    ((batch.filter fun c => c.call.name ≠ "").filter fun c => (env.verdict c).isSome)
    (fun c hc => mem_of_mem_filter (mem_of_mem_filter hc))
    ((batch.filter fun c => c.call.name = "").foldl
      (fun s c => s.storeToolResult (invalidToolCall c)) s)
  obtain ⟨hadv₃, hacc₃, hq₃⟩ := @dispatchFirst_spec batch env hb
    ((batch.filter fun c => c.call.name ≠ "").filter fun c => (env.verdict c).isNone)
    (fun c hc => mem_of_mem_filter (mem_of_mem_filter hc)) _
  refine ⟨(hadv₁.trans hadv₂).trans hadv₃, fun c hc => ?_, fun hnil => ?_⟩
  · -- a call has no name, or is rejected, or is approved
    by_cases hname : c.call.name = ""
    · have hmem : c ∈ batch.filter fun c => c.call.name = "" :=
        mem_filter.2 ⟨hc, by simpa using hname⟩
      exact hadv₃.accounted c hc (hadv₂.accounted c hc (hacc₁ c hmem))
    · have hvalid : c ∈ batch.filter fun c => c.call.name ≠ "" :=
        mem_filter.2 ⟨hc, by simpa using hname⟩
      by_cases hverdict : (env.verdict c).isSome
      · exact hadv₃.accounted c hc (hacc₂ c (mem_filter.2 ⟨hvalid, hverdict⟩))
      · exact hacc₃ c (mem_filter.2 ⟨hvalid, by simpa using hverdict⟩)
  · rw [hq₃ hnil, hq₂, hq₁, hqueue]

end Books

/-! ## The conversation -/

/-- The calls the tool messages answer, one entry for each message. -/
def toolMessageIDs (messages : List ChatMessage) : List String :=
  (messages.filter fun m => m.role = .tool).map ChatMessage.toolCallID

def batchIDs (batches : List (List ToolCall)) : List String := batches.flatten.map ToolCall.id

/-- **A request shows every batch**: its conversation holds the assistant
message of each batch and exactly one tool message for each call of it, and
the sweep removed nothing. -/
def Minted.Complete (m : Minted) : Prop :=
  m.removed = 0 ∧ ∀ batch ∈ m.batches,
    (∃ a ∈ m.messages, a.role = .assistant ∧ a.toolCalls = batch) ∧
      ∀ tc ∈ batch, (toolMessageIDs m.messages).count tc.id = 1

/-- What the conversation holds while the batch `current` is open: the
assistant messages of all batches, and the answers to all but the open one. -/
structure Chat (system recent : List ChatMessage) (batches : List (List ToolCall))
    (current : List StampedCall) : Prop where
  system_role : ∀ m ∈ system, m.role = .system
  asked : ∀ batch ∈ batches, ∃ m ∈ recent, m.role = .assistant ∧ m.toolCalls = batch
  asks : ∀ m ∈ recent, m.toolCalls ≠ [] → m.toolCalls ∈ batches
  answered : (toolMessageIDs recent ++ current.map fun c => c.call.id).Perm (batchIDs batches)
  ids_ne : "" ∉ batchIDs batches
  ids_nodup : (batchIDs batches).Nodup

section Conversation

variable {system recent : List ChatMessage} {batches : List (List ToolCall)}
  {batch : List StampedCall}

theorem mem_toolMessageIDs {messages : List ChatMessage} {id : String} :
    id ∈ toolMessageIDs messages ↔ ∃ m ∈ messages, m.role = .tool ∧ m.toolCallID = id := by
  simp [toolMessageIDs, and_assoc]

theorem mem_batchIDs {id : String} :
    id ∈ batchIDs batches ↔ ∃ batch ∈ batches, ∃ tc ∈ batch, tc.id = id := by
  simp [batchIDs]

theorem toolMessageIDs_append (l l' : List ChatMessage) :
    toolMessageIDs (l ++ l') = toolMessageIDs l ++ toolMessageIDs l' := by
  simp [toolMessageIDs]

theorem toolMessageIDs_eq_nil (h : ∀ m ∈ l, m.role ≠ .tool) :
    toolMessageIDs l = [] := by
  have hfilter : (l.filter fun m => m.role = .tool) = [] :=
    filter_eq_nil_iff.2 fun m hm => by simpa using h m hm
  simp [toolMessageIDs, hfilter]

/-- With no batch open the history is paired. -/
theorem Chat.paired (h : Chat system recent batches []) : Paired recent := by
  have hids : ∀ id, id ∈ toolMessageIDs recent ↔ id ∈ batchIDs batches := by
    intro id
    simpa using h.answered.mem_iff (a := id)
  refine ⟨fun m hm tc htc => ?_, fun t ht hanswers => ?_⟩
  · have hbatch := h.asks m hm (ne_nil_of_mem htc)
    have hid : tc.id ∈ batchIDs batches := mem_batchIDs.2 ⟨_, hbatch, tc, htc, rfl⟩
    obtain ⟨t, ht, hrole, hcall⟩ := mem_toolMessageIDs.1 ((hids _).2 hid)
    have hne : t.toolCallID ≠ "" := by
      intro hempty
      rw [← hcall, hempty] at hid
      exact h.ids_ne hid
    exact ⟨t, ht, by simp [ChatMessage.answers, hrole, hne], hcall⟩
  · have hrole : t.role = .tool := by
      simp only [ChatMessage.answers, Bool.and_eq_true, decide_eq_true_eq] at hanswers
      exact hanswers.1
    have hid := (hids _).1 (mem_toolMessageIDs.2 ⟨t, ht, hrole, rfl⟩)
    obtain ⟨batch, hbatch, tc, htc, heq⟩ := mem_batchIDs.1 hid
    obtain ⟨m, hm, -, hcalls⟩ := h.asked batch hbatch
    exact ⟨m, hm, tc, hcalls ▸ htc, heq⟩

/-- **With no batch open the conversation is a complete request.** -/
theorem Chat.complete (h : Chat system recent batches []) {preface : List ChatMessage}
    (hpreface : ∀ m ∈ preface, m.role = .system) :
    Minted.Complete ⟨preface ++ (system ++ recent), 0, batches⟩ := by
  refine ⟨rfl, fun batch hbatch => ⟨?_, fun tc htc => ?_⟩⟩
  · obtain ⟨m, hm, hrole, hcalls⟩ := h.asked batch hbatch
    exact ⟨m, by simp [hm], hrole, hcalls⟩
  · have hids : toolMessageIDs (preface ++ (system ++ recent)) = toolMessageIDs recent := by
      rw [toolMessageIDs_append, toolMessageIDs_append,
        toolMessageIDs_eq_nil fun m hm => by rw [hpreface m hm]; decide,
        toolMessageIDs_eq_nil fun m hm => by rw [h.system_role m hm]; decide]
      rfl
    have hperm : (toolMessageIDs recent).Perm (batchIDs batches) := by simpa using h.answered
    rw [hids, hperm.count_eq]
    exact count_eq_one_of_mem h.ids_nodup (mem_batchIDs.2 ⟨batch, hbatch, tc, htc, rfl⟩)

/-- Turns that ask for nothing and answer nothing may be added. -/
theorem Chat.append (h : Chat system recent batches current) {turns : List ChatMessage}
    (hturns : ∀ m ∈ turns, m.role ≠ .tool ∧ m.toolCalls = []) :
    Chat system (recent ++ turns) batches current := by
  refine ⟨h.system_role, fun batch hbatch => ?_, fun m hm hne => ?_, ?_, h.ids_ne, h.ids_nodup⟩
  · obtain ⟨m, hm, hm'⟩ := h.asked batch hbatch
    exact ⟨m, mem_append_left _ hm, hm'⟩
  · rcases mem_append.1 hm with hm | hm
    · exact h.asks m hm hne
    · exact absurd (hturns m hm).2 hne
  · rw [toolMessageIDs_append, toolMessageIDs_eq_nil fun m hm => (hturns m hm).1, append_nil]
    exact h.answered

theorem Chat.opening (h : Chat system recent batches []) {content reasoning : String}
    {calls : List ToolCall} (hstamped : batch.map StampedCall.call = calls)
    (hne : ∀ tc ∈ calls, tc.id ≠ "") (hnodup : (calls.map ToolCall.id).Nodup)
    (hfresh : ∀ tc ∈ calls, tc.id ∉ batchIDs batches) :
    Chat system (recent ++ [assistantMessage content reasoning calls]) (batches ++ [calls]) batch := by
  have hids : batchIDs (batches ++ [calls]) = batchIDs batches ++ calls.map ToolCall.id := by
    simp [batchIDs]
  have hbatch : (batch.map fun c => c.call.id) = calls.map ToolCall.id := by
    rw [← hstamped, List.map_map]
    rfl
  refine ⟨h.system_role, fun b hb => ?_, fun m hm hcalls => ?_, ?_, ?_, ?_⟩
  · rcases mem_append.1 hb with hb | hb
    · obtain ⟨m, hm, hm'⟩ := h.asked b hb
      exact ⟨m, mem_append_left _ hm, hm'⟩
    · obtain rfl := mem_singleton.1 hb
      exact ⟨_, mem_append_right _ (mem_singleton.2 rfl), rfl, rfl⟩
  · rcases mem_append.1 hm with hm | hm
    · exact mem_append_left _ (h.asks m hm hcalls)
    · obtain rfl := mem_singleton.1 hm
      exact mem_append_right _ (mem_singleton.2 rfl)
  · have hnone : toolMessageIDs [assistantMessage content reasoning calls] = [] := rfl
    have hperm : (toolMessageIDs recent).Perm (batchIDs batches) := by simpa using h.answered
    rw [toolMessageIDs_append, hnone, append_nil, hids, hbatch]
    exact hperm.append_right _
  · rw [hids, mem_append, not_or]
    refine ⟨h.ids_ne, fun hempty => ?_⟩
    obtain ⟨tc, htc, hid⟩ := List.mem_map.1 hempty
    exact hne tc htc hid
  · rw [hids, nodup_append]
    refine ⟨h.ids_nodup, hnodup, fun id hid id' hid' heq => ?_⟩
    obtain ⟨tc, htc, rfl⟩ := List.mem_map.1 hid'
    exact hfresh tc htc (heq ▸ hid)

/-- The answers of a batch, one for each call. -/
theorem results_perm (hb : Stamped batch) (ho : Open batch s)
    (hnodup : (batch.map fun c => c.call.id).Nodup)
    (hall : ∀ c ∈ batch, ∃ r ∈ s.pendingToolResults.items, r.executionID = c.executionID) :
    (s.pendingToolResults.items.map ToolResult.callID).Perm (batch.map fun c => c.call.id) := by
  have hresults : (s.pendingToolResults.items.map ToolResult.callID).Nodup := by
    refine List.Nodup.map_on (fun r hr r' hr' heq => ?_) (List.Nodup.of_map _ s.pendingToolResults.nodup)
    obtain ⟨c, hc, hexec, hid⟩ := ho.result_of r hr
    obtain ⟨c', hc', hexec', hid'⟩ := ho.result_of r' hr'
    obtain rfl := hb.eq_of_id c hc c' hc' (by rw [hid, hid', heq])
    exact Window.eq_of_key_eq hr hr' (hexec.symm.trans hexec')
  refine (perm_ext_iff_of_nodup hresults hnodup).2 fun id => ⟨fun hid => ?_, fun hid => ?_⟩
  · obtain ⟨r, hr, rfl⟩ := List.mem_map.1 hid
    obtain ⟨c, hc, -, hcall⟩ := ho.result_of r hr
    exact List.mem_map.2 ⟨c, hc, hcall⟩
  · obtain ⟨c, hc, rfl⟩ := List.mem_map.1 hid
    obtain ⟨r, hr, hexec⟩ := hall c hc
    obtain ⟨c', hc', hexec', hid'⟩ := ho.result_of r hr
    -- the result is of this call, since its execution names the call
    have hsame : c'.call.id = c.call.id := by
      rw [← hb.exec_call c' hc', ← hb.exec_call c hc, hexec', hexec]
    exact List.mem_map.2 ⟨r, hr, hid'.symm.trans hsame⟩

theorem absorbToolResults_spec (hb : Stamped batch) (ho : Open batch s)
    (hchat : Chat s.system s.recent s.batches batch)
    (hacc : ∀ c ∈ batch, Accounted s c) (hpending : s.pendingTools = [])
    (hqueue : s.queuedToolCalls = []) :
    Open [] s.absorbToolResults ∧
      Chat s.system s.absorbToolResults.recent s.batches [] := by
  have hall : ∀ c ∈ batch, ∃ r ∈ s.pendingToolResults.items, r.executionID = c.executionID := by
    intro c hc
    rcases hacc c hc with h | h | h
    · exact h
    · simp [hpending] at h
    · simp [hqueue] at h
  have hnodup : (batch.map fun c => c.call.id).Nodup :=
    (nodup_append.1 (hchat.answered.nodup_iff.2 hchat.ids_nodup)).2.1
  constructor
  · refine ⟨fun r hr => absurd hr (by simp [absorbToolResults]), fun e he => ?_, ?_, ?_⟩
    · obtain ⟨he, hne⟩ := mem_filter.1 he
      obtain ⟨c, hc, rfl⟩ := ho.routed_of e he
      obtain ⟨r, hr, hexec⟩ := hall c hc
      exact absurd (List.mem_map.2 ⟨r, hr, hexec⟩) (by simpa using hne)
    · simp [absorbToolResults, hqueue]
    · simp [absorbToolResults, hpending]
  · have hids : toolMessageIDs (s.pendingToolResults.items.map (toolMessage s)) =
        s.pendingToolResults.items.map ToolResult.callID := by
      have hfilter : (s.pendingToolResults.items.map (toolMessage s)).filter
          (fun m => m.role = .tool) = s.pendingToolResults.items.map (toolMessage s) :=
        filter_eq_self.2 fun m hm => by
          obtain ⟨r, -, rfl⟩ := List.mem_map.1 hm
          rfl
      rw [toolMessageIDs, hfilter, List.map_map]
      rfl
    refine { hchat with asked := fun b hb' => ?_, asks := fun m hm hne => ?_, answered := ?_ }
    · obtain ⟨m, hm, hm'⟩ := hchat.asked b hb'
      exact ⟨m, mem_append_left _ hm, hm'⟩
    · rcases mem_append.1 hm with hm | hm
      · exact hchat.asks m hm hne
      · obtain ⟨r, -, rfl⟩ := List.mem_map.1 hm
        exact absurd rfl hne
    · show (toolMessageIDs (s.recent ++ s.pendingToolResults.items.map (toolMessage s)) ++ []).Perm _
      rw [append_nil, toolMessageIDs_append, hids]
      exact ((results_perm hb ho hnodup hall).append_left _).trans hchat.answered

end Conversation

/-! ## What a handler call keeps -/

/-- The model is working on a request that shows it everything. -/
structure Waiting (s : LoopState) : Prop where
  running : s.status = .running
  outstanding : s.outstanding = true
  books : Open [] s
  chat : Chat s.system s.recent s.batches []

/-- The calls of a batch are being worked on. -/
structure Working (batch : List StampedCall) (s : LoopState) : Prop where
  outstanding : s.outstanding = false
  stamped : Stamped batch
  books : Open batch s
  accounted : ∀ c ∈ batch, Accounted s c
  chat : Chat s.system s.recent s.batches batch

/-- A call is in flight, or a call of the batch waits for a human. -/
def Busy (batch : List StampedCall) (s : LoopState) : Prop :=
  (s.status = .running ∧ s.pendingTools ≠ []) ∨
    ∃ gate, s.status = .awaitingApproval gate ∧
      ∃ c ∈ batch, c.executionID = gate.executionID ∧ c.call.id = gate.callID

/-- **The loop invariant.** Every request minted so far shows every batch, and
so will the next. -/
structure Sound (s : LoopState) : Prop where
  complete : ∀ m ∈ s.minted, m.Complete
  live : s.status = .terminal ∨ Waiting s ∨ ∃ batch, Working batch s ∧ Busy batch s

variable {s s' : LoopState} {batch : List StampedCall} {env : Surroundings} {r : ToolResult}

theorem sound_settle (h : ∀ m ∈ s.minted, m.Complete) : Sound s.settle := ⟨h, .inl rfl⟩

/-- A step of the books leaves the conversation as it was. -/
theorem Advances.chat_eq (hadv : Advances batch s s') (h : Chat s.system s.recent s.batches batch) :
    Chat s'.system s'.recent s'.batches batch := by
  rw [hadv.same system fun _ => rfl, hadv.same recent fun _ => rfl, hadv.same batches fun _ => rfl]
  exact h

theorem Working.advance (h : Working batch s) (hadv : Advances batch s s') : Working batch s' :=
  ⟨(hadv.same LoopState.outstanding fun _ => rfl).trans h.outstanding, h.stamped,
    hadv.opened h.books, fun c hc => hadv.accounted c hc (h.accounted c hc), hadv.chat_eq h.chat⟩

theorem Advances.minted_eq (hadv : Advances batch s s') : s'.minted = s.minted :=
  hadv.same minted fun _ => rfl

theorem Advances.status_eq (hadv : Advances batch s s') : s'.status = s.status :=
  hadv.same status fun _ => rfl

/-- No batch is open: the next request shows them all. -/
structure Ready (s : LoopState) : Prop where
  complete : ∀ m ∈ s.minted, m.Complete
  running : s.status = .running
  books : Open [] s
  chat : Chat s.system s.recent s.batches []

theorem sound_mint (h : Ready s) : Sound (s.mint env (s.system ++ s.recent) 0) := by
  refine ⟨fun m hm => ?_, .inr (.inl ⟨h.running, rfl, { h.books with }, h.chat⟩)⟩
  rcases mem_cons.1 hm with rfl | hm
  · refine h.chat.complete fun m hm => ?_
    obtain ⟨_, -, rfl⟩ := List.mem_map.1 hm
    rfl
  · exact h.complete m hm

/-- The turns put into an emptied context are the user's. -/
theorem recoveredTurns_plain : ∀ m ∈ recoveredTurns s, m.role ≠ .tool ∧ m.toolCalls = [] := by
  intro m hm
  rcases mem_cons.1 hm with rfl | hm
  · exact ⟨nofun, rfl⟩
  · obtain ⟨_, -, rfl⟩ := List.mem_map.1 hm
    exact ⟨nofun, rfl⟩

theorem sound_publishIterationRequest (h : Ready s) : Sound (s.publishIterationRequest env) := by
  unfold publishIterationRequest
  -- the history is paired, so the sweep is the identity
  simp only [repairToolPairs_of_paired h.chat.paired]
  split
  · exact sound_mint h
  · exact @sound_mint { s with recent := s.recent ++ recoveredTurns s } env
      { h with books := { h.books with }, chat := h.chat.append recoveredTurns_plain }

/-- A deferred turn is carried by the next request, or the loop ends. -/
theorem sound_carryDeferredContinuation (h : Ready s) (hend : Sound s') :
    Sound ((s.carryDeferredContinuation env).getD s') := by
  unfold carryDeferredContinuation
  split
  · exact hend
  · exact @sound_publishIterationRequest { s with iterations := s.iterations + 1 } env
      { h with books := { h.books with } }

/-- **A batch whose every call is answered closes**: its answers join the
conversation, and the books are empty again. -/
theorem ready_absorbToolResults (hminted : ∀ m ∈ s.minted, m.Complete) (hrunning : s.status = .running)
    (h : Working batch s) (hpending : s.pendingTools = []) (hqueue : s.queuedToolCalls = []) :
    Ready s.absorbToolResults := by
  obtain ⟨hbooks, hchat⟩ :=
    absorbToolResults_spec h.stamped h.books h.chat h.accounted hpending hqueue
  exact ⟨hminted, hrunning, hbooks, hchat⟩

/-- **A finished batch is followed by a request that shows it.** -/
theorem sound_handleToolsComplete (hminted : ∀ m ∈ s.minted, m.Complete)
    (hrunning : s.status = .running) (h : Working batch s) (hpending : s.pendingTools = [])
    (hqueue : s.queuedToolCalls = []) : Sound (s.handleToolsComplete env) := by
  unfold handleToolsComplete
  split
  · exact sound_settle hminted
  · have hready := ready_absorbToolResults hminted hrunning h hpending hqueue
    exact @sound_publishIterationRequest (absorbToolResults { s with iterations := s.iterations + 1 })
      env { hready with books := { hready.books with } }

/-- What a step on a tool result must meet: an approval gate finds no sibling
queued, and a terminal result that is carried on finds none in flight. -/
def Unbroken (s : LoopState) (r : ToolResult) : Prop :=
  (r.error.isApprovalRequired = true → s.queuedToolCalls = []) ∧
    (r.error.isApprovalRequired = false → r.stopLoop = true → s.hasPendingContinuation = true →
      ∀ id ∈ s.pendingTools, id = r.callID)

/-- **A result of a call of the batch**, while the loop runs. -/
theorem sound_applyToolResult (hminted : ∀ m ∈ s.minted, m.Complete) (hrunning : s.status = .running)
    (h : Working batch s) (hc : c ∈ batch) (hexec : r.executionID = c.executionID)
    (hid : r.callID = c.call.id) (hunbroken : Unbroken s r) : Sound (s.applyToolResult env r) := by
  have hwork := h.advance (advances_answer h.stamped hc hexec hid)
  unfold applyToolResult
  obtain ⟨s₁, hs₁⟩ : ∃ s₁, (s.storeToolResult r).removePendingTool r.callID = s₁ := ⟨_, rfl⟩
  have hqueue : s₁.queuedToolCalls = s.queuedToolCalls := hs₁ ▸ rfl
  have hpending : s₁.pendingTools = s.pendingTools.filter (· ≠ r.callID) := hs₁ ▸ rfl
  have hcarry : s₁.hasPendingContinuation = s.hasPendingContinuation := hs₁ ▸ rfl
  have hminted₁ : s₁.minted = s.minted := hs₁ ▸ rfl
  have hstatus₁ : s₁.status = .running := hs₁ ▸ hrunning
  rw [hs₁] at hwork ⊢
  simp only [hstatus₁]
  rw [← hminted₁] at hminted
  split
  · -- the gate: nothing was queued, so nothing is dropped
    rename_i hgate
    have hempty : s₁.queuedToolCalls = [] := hqueue.trans (hunbroken.1 hgate)
    refine ⟨hminted, .inr (.inr ⟨batch, { hwork with books := ?_, accounted := ?_ },
      .inr ⟨_, rfl, c, hc, hexec.symm, hid.symm⟩⟩)⟩
    · exact ⟨hwork.books.1, hwork.books.2, by simp, hwork.books.4⟩
    · intro c' hc'
      rcases hwork.accounted c' hc' with h | h | h
      · exact .inl h
      · exact .inr (.inl h)
      · simp [hempty] at h
  · rename_i hgate
    have hgate : r.error.isApprovalRequired = false := by simpa using hgate
    split
    · -- a terminal result: the turn that waits is carried, or the loop ends
      rename_i hstop
      cases hcont : s₁.hasPendingContinuation with
      | false => exact sound_settle hminted
      | true =>
        simp only [if_true]
        obtain ⟨hskip, hdrained, hkept⟩ := @synthesizeSkippedQueuedTools_spec batch r.name s₁
          s₁.queuedToolCalls.length rfl hwork.books
        have hnone : s₁.pendingTools = [] := by
          rw [hpending, filter_eq_nil_iff]
          intro id hmem
          have hsame := hunbroken.2 hgate hstop (hcarry ▸ hcont) id hmem
          simp [hsame]
        have hwork₂ := hwork.advance hskip
        have hminted₂ := hskip.minted_eq
        have hstatus₂ := hskip.status_eq.trans hstatus₁
        rw [hnone] at hkept
        generalize synthesizeSkippedQueuedTools r.name s₁.queuedToolCalls.length s₁ = s₂ at *
        have hsame : ({ s₂ with queuedToolCalls := [] } : LoopState) = s₂ := by
          rw [← hdrained]
        rw [hsame]
        rw [← hminted₂] at hminted
        exact sound_carryDeferredContinuation
          (ready_absorbToolResults hminted hstatus₂ hwork₂ hkept hdrained) (sound_settle hminted)
    · -- the next queued call goes out, or the batch is finished
      obtain ⟨hadv₂, hsent, hdrained⟩ := @dispatchedFromQueue_spec batch env h.stamped s₁
        s₁.queuedToolCalls.length rfl hwork.books
      have hwork₂ := hwork.advance hadv₂
      have hminted₂ := hadv₂.minted_eq
      have hstatus₂ := hadv₂.status_eq.trans hstatus₁
      generalize dispatchedFromQueue env s₁.queuedToolCalls.length s₁ = out at *
      obtain ⟨sent, s₂⟩ := out
      rw [← hminted₂] at hminted
      cases sent with
      | true => exact ⟨hminted, .inr (.inr ⟨batch, hwork₂, .inl ⟨hstatus₂, hsent rfl⟩⟩)⟩
      | false =>
        by_cases hnone : s₂.pendingTools = []
        · simp only [hnone, if_true]
          exact sound_handleToolsComplete hminted hstatus₂ hwork₂ hnone (hdrained rfl)
        · simp only [hnone, if_false]
          exact ⟨hminted, .inr (.inr ⟨batch, hwork₂, .inl ⟨hstatus₂, hnone⟩⟩)⟩

theorem stampToolExecutionCorrelation_spec {requestID : ℕ} {calls : List ToolCall}
    (hnodup : (calls.map ToolCall.id).Nodup)
    (h : stampToolExecutionCorrelation requestID calls = some batch) :
    (∀ tc ∈ calls, tc.id ≠ "") ∧ batch.map StampedCall.call = calls ∧ Stamped batch := by
  unfold stampToolExecutionCorrelation at h
  split at h
  · contradiction
  rename_i hids
  simp only [List.any_eq_true, decide_eq_true_eq, not_exists, not_and] at hids
  cases h
  have hcalls : (calls.mapIdx fun i tc => (⟨tc, ⟨requestID, tc.id, i + 1⟩⟩ : StampedCall)).map
      StampedCall.call = calls := by
    apply ext_getElem <;> simp
  refine ⟨hids, hcalls, fun c hc => ?_, fun c hc c' hc' heq => ?_⟩
  · obtain ⟨i, _, rfl⟩ := mem_mapIdx.1 hc
    rfl
  · rw [← hcalls, List.map_map] at hnodup
    exact inj_on_of_nodup_map hnodup hc hc' heq

/-- Only the history changes: the message joins it, unless it is empty. -/
theorem addAssistantMessage_eq (s : LoopState) (content reasoning : String) (calls : List ToolCall) :
    ∃ turns, s.addAssistantMessage content reasoning calls =
        { s with recent := s.recent ++ turns } ∧
      (∀ m ∈ turns, m = assistantMessage content reasoning calls) ∧
      (calls ≠ [] → turns = [assistantMessage content reasoning calls]) := by
  unfold addAssistantMessage
  split
  · exact ⟨_, rfl, fun m hm => mem_singleton.1 hm, fun _ => rfl⟩
  · rename_i hempty
    exact ⟨[], by rw [append_nil], nofun, fun hne => absurd (.inr (.inr hne)) hempty⟩

theorem assistantMessage_plain {turns : List ChatMessage} {content reasoning : String}
    (h : ∀ m ∈ turns, m = assistantMessage content reasoning []) :
    ∀ m ∈ turns, m.role ≠ .tool ∧ m.toolCalls = [] := by
  intro m hm
  rw [h m hm]
  exact ⟨nofun, rfl⟩

/-- The calls of a batch that was just opened are put to work. -/
theorem working_handleToolCallResponse (hout : s.outstanding = false) (hbooks : Open [] s)
    (hstamped : Stamped batch) (hchat : Chat s.system s.recent s.batches batch) :
    Working batch (s.handleToolCallResponse env batch) ∧
      Advances batch s (s.handleToolCallResponse env batch) ∧
      ((s.handleToolCallResponse env batch).pendingTools = [] →
        (s.handleToolCallResponse env batch).queuedToolCalls = []) := by
  have hqueue : s.queuedToolCalls = [] :=
    eq_nil_iff_forall_not_mem.2 fun c hc => nomatch hbooks.queued_of c hc
  obtain ⟨hadv, hacc, hdrained⟩ := @handleToolCallResponse_spec batch env hstamped s hqueue
  have hopen : Open batch s := hbooks.mono nofun
  exact ⟨⟨(hadv.same outstanding fun _ => rfl).trans hout, hstamped, hadv.opened hopen, hacc,
    hadv.chat_eq hchat⟩, hadv, hdrained⟩

/-- **The answer to the outstanding request**, by its status. -/
theorem sound_handleStatus (h : Ready s) (hout : s.outstanding = false)
    (hnodup : (response.calls.map ToolCall.id).Nodup)
    (hfresh : ∀ tc ∈ response.calls, tc.id ∉ batchIDs s.batches) :
    Sound (s.handleStatus env response) := by
  unfold handleStatus
  split
  · rename_i content reasoning calls
    obtain ⟨turns, heq, hturns, hasked⟩ := addAssistantMessage_eq s content reasoning calls
    simp only [openBatch, heq]
    cases hstamp : stampToolExecutionCorrelation s.minted.length calls with
    | none => exact sound_settle h.complete
    | some batch =>
      obtain ⟨hne, hcalls, hstamped⟩ := stampToolExecutionCorrelation_spec hnodup hstamp
      have hchat : Chat s.system (s.recent ++ turns)
          (if calls = [] then s.batches else s.batches ++ [calls]) batch := by
        by_cases hempty : calls = []
        · -- an open batch of no calls is no batch
          subst hempty
          obtain rfl := map_eq_nil_iff.1 hcalls
          exact h.chat.append (assistantMessage_plain hturns)
        · rw [if_neg hempty, hasked hempty]
          exact h.chat.opening hcalls hne hnodup hfresh
      generalize (if calls = [] then s.batches else s.batches ++ [calls]) = batches at hchat ⊢
      obtain ⟨hwork, hadv, hdrained⟩ := @working_handleToolCallResponse
        { s with recent := s.recent ++ turns, batches } batch env hout { h.books with } hstamped hchat
      have hstatus := hadv.status_eq.trans h.running
      have hminted := h.complete
      rw [← hadv.minted_eq] at hminted
      dsimp only
      split_ifs with hnone
      · exact sound_handleToolsComplete hminted hstatus hwork hnone (hdrained hnone)
      · exact ⟨hminted, .inr (.inr ⟨batch, hwork, .inl ⟨hstatus, hnone⟩⟩)⟩
  · rename_i content reasoning
    obtain ⟨turns, heq, hturns, -⟩ := addAssistantMessage_eq s content reasoning []
    simp only [heq]
    split
    · exact sound_carryDeferredContinuation { h with
        books := { h.books with }
        chat := h.chat.append (assistantMessage_plain hturns) } (sound_settle h.complete)
    · exact sound_settle h.complete
  · split
    · exact sound_publishIterationRequest h
    · exact sound_settle h.complete
  · exact sound_settle h.complete

theorem sound_handleModelResponse (hminted : ∀ m ∈ s.minted, m.Complete) (h : Waiting s)
    (hnodup : (response.calls.map ToolCall.id).Nodup)
    (hfresh : ∀ tc ∈ response.calls, tc.id ∉ batchIDs s.batches) :
    Sound (s.handleModelResponse env response) := by
  obtain ⟨deferred, hsettled⟩ : ∃ deferred, s.settleRequest response =
      { s with outstanding := false, deferred } := by
    unfold settleRequest
    split <;> exact ⟨_, rfl⟩
  unfold handleModelResponse
  rw [if_neg (by rw [h.running]; nofun)]
  simp only [hsettled]
  split
  · exact sound_settle hminted
  · exact sound_handleStatus ⟨hminted, h.running, { h.books with }, h.chat⟩ rfl hnodup hfresh

/-- A delivered result meets the condition where it is applied. -/
def Undisturbed (s : LoopState) : LoopEvent → Prop
  | .toolResult r env =>
    s.status = .running → r.executionID ∈ s.toolCallToLoop → env.timedOut = false →
      ¬ (r.error.isApprovalRequired = true ∧
        r.executionID ∈ s.pendingToolResults.items.map ToolResult.executionID) → Unbroken s r
  | _ => True

/-- A delivered result is of a call of the open batch, or has no effect. -/
theorem sound_handleToolResult (h : Sound s) (hcall : r.callID = r.executionID.callID)
    (hcond : Undisturbed s (.toolResult r env)) : Sound (s.handleToolResult env r) := by
  unfold handleToolResult
  split_ifs with hnoop hanswered htimedOut
  · exact h
  · exact h
  · exact sound_settle h.complete
  · obtain ⟨hlive, hrouted⟩ := not_or.1 hnoop
    have hrouted := not_not.1 hrouted
    rcases h.live with hterminal | hwaiting | ⟨batch, hwork, hbusy⟩
    · exact absurd hterminal hlive
    · obtain ⟨c, hc, -⟩ := hwaiting.books.routed_of _ hrouted
      contradiction
    · obtain ⟨c, hc, hexec⟩ := hwork.books.routed_of _ hrouted
      have hid : r.callID = c.call.id := by
        rw [hcall, ← hexec, hwork.stamped.exec_call c hc]
      rcases hbusy with ⟨hrunning, -⟩ | ⟨gate, hgate, hgated⟩
      · refine sound_applyToolResult h.complete hrunning hwork hc hexec.symm hid ?_
        exact hcond hrunning hrouted (by simpa using htimedOut) fun ⟨herror, hstored⟩ =>
          hanswered ⟨herror, hrunning, hstored⟩
      · -- a sibling of the gated call: its result is stored, the gate stays
        have hwork := hwork.advance (advances_answer hwork.stamped hc hexec.symm hid)
        have hstatus : ((s.storeToolResult r).removePendingTool r.callID).status =
            .awaitingApproval gate := hgate
        unfold applyToolResult
        simp only [hstatus]
        exact ⟨h.complete, .inr (.inr ⟨batch, hwork, .inr ⟨gate, hstatus, hgated⟩⟩)⟩

/-- The answer of the human puts the gated call back to work, or answers it. -/
theorem sound_handleApprovalResponse (h : Sound s)
    : Sound (s.handleApprovalResponse env executionID decision) := by
  unfold handleApprovalResponse
  split
  · rename_i gate hgate
    rcases h.live with hterminal | hwaiting | ⟨batch, hwork, hbusy⟩
    · rw [hgate] at hterminal
      contradiction
    · rw [hwaiting.running] at hgate
      contradiction
    · obtain ⟨c, hc, hexec, hid⟩ : ∃ c ∈ batch, c.executionID = gate.executionID ∧
          c.call.id = gate.callID := by
        rcases hbusy with ⟨hrunning, -⟩ | ⟨_, hgate', hgated⟩
        · rw [hrunning] at hgate
          contradiction
        · rw [hgate', LoopStatus.awaitingApproval.injEq] at hgate
          exact hgate ▸ hgated
      have hcleared : Working batch { s with status := .running } :=
        { hwork with books := { hwork.books with } }
      have hdispatched : ∀ arguments : String, Sound (({ s with status := .running } :
          LoopState).dispatchToolCall
            ⟨⟨gate.callID, gate.toolName, arguments⟩, gate.executionID⟩) := by
        intro arguments
        have hpending : gate.callID ∈ (({ s with status := .running } : LoopState).dispatchToolCall
            ⟨⟨gate.callID, gate.toolName, arguments⟩, gate.executionID⟩).pendingTools :=
          mem_insert_iff.2 (.inl rfl)
        exact ⟨h.complete, .inr (.inr ⟨batch,
          hcleared.advance (advances_dispatchToolCall ⟨c, hc, hexec, hid⟩),
          .inl ⟨rfl, ne_nil_of_mem hpending⟩⟩)⟩
      split_ifs with hother htimedOut
      · exact h
      · exact sound_settle h.complete
      · cases decision with
        | approve => exact hdispatched gate.arguments
        | modify arguments => exact hdispatched arguments
        | reject reason =>
          exact sound_applyToolResult h.complete rfl hcleared hc hexec.symm hid.symm
            ⟨nofun, nofun⟩
  · exact h

/-- A further turn joins the conversation only while the model is working. -/
theorem sound_handleTask (h : Sound s) : Sound (s.handleTask env prompt) := by
  have hplain : ∀ m ∈ [({ role := .user, content := prompt } : ChatMessage)],
      m.role ≠ .tool ∧ m.toolCalls = [] := by
    intro m hm
    obtain rfl := mem_singleton.1 hm
    exact ⟨nofun, rfl⟩
  unfold handleTask
  split_ifs with hrefused hout
  · exact h
  all_goals
    obtain ⟨hrunning, hpending⟩ := not_or.1 hrefused
    rw [not_not] at hrunning hpending
    rcases h.live with hterminal | hwaiting | ⟨_, _, hbusy⟩
    · rw [hrunning] at hterminal
      contradiction
    rotate_left
    · rcases hbusy with ⟨-, _⟩ | ⟨_, hgate, -⟩
      · contradiction
      · rw [hrunning] at hgate
        contradiction
  · exact ⟨h.complete, .inr (.inl ⟨hrunning, hout, { hwaiting.books with },
      hwaiting.chat.append hplain⟩)⟩
  · exact absurd hwaiting.outstanding hout

/-- **What one handler call keeps.** -/
theorem sound_loopStep (h : Sound s) (hcond : Undisturbed s e)
    (hstep : loopStep s e = some s') : Sound s' := by
  cases e with
  | response r env =>
    obtain ⟨⟨hout, hnodup, hfresh⟩, ⟨⟩⟩ := ite_none_right_eq_some.1 hstep
    rcases h.live with hterminal | hwaiting | ⟨_, hwork, -⟩
    · unfold handleModelResponse
      rw [if_pos hterminal]
      exact h
    · exact sound_handleModelResponse h.complete hwaiting hnodup hfresh
    · rw [hwork.outstanding] at hout
      contradiction
  | toolResult r env =>
    obtain ⟨hcall, ⟨⟩⟩ := ite_none_right_eq_some.1 hstep
    exact sound_handleToolResult h hcall hcond
  | approval executionID decision env =>
    cases hstep
    exact sound_handleApprovalResponse h
  | task prompt env =>
    cases hstep
    exact sound_handleTask h
  | ended =>
    cases hstep
    exact sound_settle h.complete

/-- A loop whose first request is out has asked for no batch. -/
theorem sound_born {system : List String} {prompt : String} {maxIterations : ℕ} :
    Sound (.born system prompt maxIterations) := by
  refine ⟨by simp [born], .inr (.inl ⟨rfl, rfl, ?_, ?_⟩)⟩
  · constructor <;> simp [born]
  · refine ⟨fun m hm => ?_, nofun, fun m hm hne => ?_, List.Perm.refl [], by simp [born,
      batchIDs], by simp [born, batchIDs]⟩
    · obtain ⟨_, -, rfl⟩ := List.mem_map.1 hm
      rfl
    · obtain rfl := mem_singleton.1 hm
      exact absurd rfl hne

/-- Two calls: one that is simply executed, one that needs an approval. -/
def readCall : ToolCall := ⟨"call-read", "read_file", "README"⟩

def deployCall : ToolCall := ⟨"call-deploy", "deploy", "staging"⟩

def readResult (ordinal : ℕ) : ToolResult :=
  { callID := "call-read", executionID := ⟨0, "call-read", ordinal⟩, name := "read_file"
    content := "text" }

def deployGated (ordinal : ℕ) : ToolResult :=
  { callID := "call-deploy", executionID := ⟨0, "call-deploy", ordinal⟩, name := "deploy"
    error := .approvalRequired "deploys need a human" }

def deployResult (ordinal : ℕ) : ToolResult :=
  { callID := "call-deploy", executionID := ⟨0, "call-deploy", ordinal⟩, name := "deploy"
    content := "deployed" }

end SemStreams.AgenticLoop
