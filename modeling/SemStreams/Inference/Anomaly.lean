import SemStreams.Lib.Subject
import Mathlib.Data.List.AList
import Mathlib.Data.Rat.Defs
/-!
# inference — anomalies and their keys

An anomaly is a relationship the graph may lack, and what became of it. It is stored under
its identifier, with an index key for its status and one for its type. A query by status
lists the index keys and reads the records they name; it does not look at what the records
say.

The identifier is one token of a key. Keys of entity pairs and entities, which only suppress
detections, are left out.
-/

namespace SemStreams.Inference

open List Option

inductive AnomalyStatus where
  | pending
  | llmReviewing
  | llmApproved
  | llmRejected
  | humanReview
  | approved
  | rejected
  | applied
  | dismissed
  | autoApplied
deriving DecidableEq

def AnomalyStatus.text : AnomalyStatus → String
  | pending => "pending"
  | llmReviewing => "llm_reviewing"
  | llmApproved => "llm_approved"
  | llmRejected => "llm_rejected"
  | humanReview => "human_review"
  | approved => "approved"
  | rejected => "rejected"
  | applied => "applied"
  | dismissed => "dismissed"
  | autoApplied => "auto_applied"

inductive AnomalyType where
  | semanticStructuralGap
  | coreIsolation
  | coreDemotion
  | transitivityGap
deriving DecidableEq

def AnomalyType.text : AnomalyType → String
  | semanticStructuralGap => "semantic_structural_gap"
  | coreIsolation => "core_isolation"
  | coreDemotion => "core_demotion"
  | transitivityGap => "transitivity_gap"

/-- One token of a key. -/
def IsToken (id : String) : Prop := id ≠ "" ∧ '.' ∉ id.toList

instance (id : String) : Decidable (IsToken id) := inferInstanceAs (Decidable (_ ∧ _))

/-- The identifier of an anomaly, a UUID: one token. -/
abbrev AnomalyId := {id : String // IsToken id}

/-- `RelationshipSuggestion`, without its reasoning. -/
structure Suggestion where
  fromEntity : String
  toEntity : String
  predicate : String
deriving DecidableEq

/-- `StructuralAnomaly`, without its evidence and the cached contexts. -/
structure Anomaly where
  id : AnomalyId
  type : AnomalyType
  entityA : String
  entityB : String
  confidence : ℚ
  suggestion : Option Suggestion
  status : AnomalyStatus
  detectedAt : ℤ
  reviewedAt : Option ℤ
  reviewedBy : String
  llmReasoning : String
  reviewNotes : String
deriving DecidableEq

def Anomaly.isResolved (a : Anomaly) : Bool :=
  match a.status with
  | .approved | .rejected | .applied | .llmRejected | .dismissed | .autoApplied => true
  | _ => false

/-! ## Keys -/

def statusIndexKey (status : AnomalyStatus) (id : AnomalyId) : String :=
  "anomaly" ++ "." ++ ("idx" ++ "." ++ ("status" ++ "." ++ (status.text ++ "." ++ id.1)))

def typeIndexKey (type : AnomalyType) (id : AnomalyId) : String :=
  "anomaly" ++ "." ++ ("idx" ++ "." ++ ("type" ++ "." ++ (type.text ++ "." ++ id.1)))

/-- The filter of a query by status, `statusIndexPrefix` and what may follow it. -/
def statusFilter (status : AnomalyStatus) : String :=
  "anomaly" ++ "." ++ ("idx" ++ "." ++ ("status" ++ "." ++ (status.text ++ "." ++ ">")))

/-- `extractIDFromIndexKey`; the empty text where there is none. -/
def extractIDFromIndexKey (key : String) : String :=
  if (tokens key).length < 5 then "" else String.ofList ((tokens key).getLastD [])

inductive IndexKey where
  | status (status : AnomalyStatus) (id : AnomalyId)
  | type (type : AnomalyType) (id : AnomalyId)
deriving DecidableEq

def IndexKey.text : IndexKey → String
  | status s id => statusIndexKey s id
  | type t id => typeIndexKey t id

section Keys

variable (status : AnomalyStatus)

theorem status_text_dotless : '.' ∉ status.text.toList := by
  cases status <;> decide

theorem type_text_dotless (type : AnomalyType) : '.' ∉ type.text.toList := by
  cases type <;> decide

theorem status_text_injective {status status' : AnomalyStatus} (h : status.text = status'.text) :
    status = status' := by
  cases status <;> cases status' <;> first | rfl | exact absurd h (by decide)

variable (id : AnomalyId)

theorem tokens_statusIndexKey : tokens (statusIndexKey status id) =
      ["anomaly".toList, "idx".toList, "status".toList, status.text.toList, id.1.toList] := by
  simp only [statusIndexKey, tokens_append_dot, tokens_eq_singleton (status_text_dotless status),
    tokens_eq_singleton id.2.2]
  rfl

theorem tokens_typeIndexKey (type : AnomalyType) (id : AnomalyId) : tokens (typeIndexKey type id) =
      ["anomaly".toList, "idx".toList, "type".toList, type.text.toList, id.1.toList] := by
  simp only [typeIndexKey, tokens_append_dot, tokens_eq_singleton (type_text_dotless type),
    tokens_eq_singleton id.2.2]
  rfl

theorem tokens_statusFilter : tokens (statusFilter status) =
      ["anomaly".toList, "idx".toList, "status".toList, status.text.toList] ++ [['>']] := by
  simp only [statusFilter, tokens_append_dot, tokens_eq_singleton (status_text_dotless status)]
  rfl

theorem fields_agree {α : Type*} {a b c d e a' b' c' d' : α} {rest : List α}
    (h : [a, b, c, d, e] = [a', b', c', d'] ++ rest) : c = c' ∧ d = d' := by
  simp only [cons_append, nil_append, List.cons.injEq] at h
  exact ⟨h.2.2.1, h.2.2.2.1⟩

/-- **A query by status lists the index keys of the status**, and no others. -/
theorem statusFilter_selects_iff (key : IndexKey) :
    subjectSelects (statusFilter status) key.text ↔ ∃ id, key = .status status id := by
  have hliteral : ∀ l ∈ ["anomaly".toList, "idx".toList, "status".toList, status.text.toList],
      Literal l := by
    intro l hl
    simp only [mem_cons, not_mem_nil, or_false] at hl
    rcases hl with rfl | rfl | rfl | rfl
    iterate 3 · exact ⟨by decide, by decide⟩
    · cases status <;> exact ⟨by decide, by decide⟩
  rw [subjectSelects, tokens_statusFilter, filterSelects_literals_rest hliteral]
  cases key with
  | status other id =>
    rw [IndexKey.text, tokens_statusIndexKey]
    constructor
    · rintro ⟨rest, -, hrest⟩
      have hstatus : other.text = status.text := String.toList_inj.1 (fields_agree hrest).2
      rw [status_text_injective hstatus]
      exact ⟨id, rfl⟩
    · rintro ⟨id', heq⟩
      cases heq
      exact ⟨[id.1.toList], by simp, rfl⟩
  | type t id =>
    rw [IndexKey.text, tokens_typeIndexKey]
    constructor
    · rintro ⟨rest, -, hrest⟩
      have hthird : "type".toList = "status".toList := (fields_agree hrest).1
      exact absurd hthird (by decide)
    · rintro ⟨id', heq⟩
      cases heq

theorem extractIDFromIndexKey_status : extractIDFromIndexKey (statusIndexKey status id) = id.1 := by
  simp [extractIDFromIndexKey, tokens_statusIndexKey]

end Keys

/-! ## The store -/

/-- The bucket: the records, each under its identifier and with its revision, and the keys of
the index. -/
structure Store where
  records : AList fun _ : AnomalyId => Anomaly × ℕ
  index : List IndexKey
  lastRevision : ℕ
  named : ∀ id a r, records.lookup id = some (a, r) → a.id = id
  nodup : index.Nodup

namespace Store

def empty : Store where
  records := ∅
  index := []
  lastRevision := 0
  named _ _ _ h := by
    rw [AList.lookup_empty] at h
    cases h
  nodup := nodup_nil

variable (s : Store)

def get (id : AnomalyId) : Option Anomaly := (s.records.lookup id).map Prod.fst

def revision (id : AnomalyId) : Option ℕ := (s.records.lookup id).map Prod.snd

/-- `Get` of a text. -/
def find (id : String) : Option Anomaly := if h : IsToken id then s.get ⟨id, h⟩ else none

def putRecord (a : Anomaly) : Store :=
  { s with
    records := s.records.insert a.id (a, s.lastRevision + 1)
    lastRevision := s.lastRevision + 1
    named := by
      intro id b r h
      by_cases heq : id = a.id
      · subst heq
        rw [AList.lookup_insert] at h
        cases h
        rfl
      · rw [AList.lookup_insert_ne heq] at h
        exact s.named id b r h }

def dropRecord (id : AnomalyId) : Store :=
  { s with
    records := s.records.erase id
    named := by
      intro other b r h
      by_cases heq : other = id
      · subst heq
        rw [AList.lookup_erase] at h
        cases h
      · rw [AList.lookup_erase_ne heq] at h
        exact s.named other b r h }

def putIndex (key : IndexKey) : Store :=
  { s with index := s.index.insert key, nodup := s.nodup.insert }

def dropIndex (key : IndexKey) : Store :=
  { s with index := s.index.filter fun other => other ≠ key, nodup := s.nodup.filter _ }

/-- The texts `getByIndexPrefix` extracts for a status, from the keys in the order they are
listed. -/
def idsByStatus (keys : List IndexKey) (status : AnomalyStatus) : List String :=
  (keys.filter fun key => subjectSelects (statusFilter status) key.text).map fun key =>
    extractIDFromIndexKey key.text

def getByStatus (keys : List IndexKey) (status : AnomalyStatus) : List Anomaly :=
  (idsByStatus keys status).filterMap s.find

variable {s} {a : Anomaly} {id : AnomalyId}

theorem id_of_get (h : s.get id = some a) : a.id = id := by
  obtain ⟨⟨b, r⟩, hb, rfl⟩ := map_eq_some_iff.1 h
  exact s.named id b r hb

@[simp] theorem find_coe (id : AnomalyId) : s.find id.1 = s.get id := dif_pos id.2

@[simp] theorem get_putRecord_self : (s.putRecord a).get a.id = some a := by
  simp [get, putRecord]

theorem get_putRecord_ne (h : id ≠ a.id) : (s.putRecord a).get id = s.get id := by
  simp [get, putRecord, AList.lookup_insert_ne h]

@[simp] theorem get_dropRecord_self : (s.dropRecord id).get id = none := by
  simp [get, dropRecord]

theorem get_dropRecord_ne (h : other ≠ id) : (s.dropRecord id).get other = s.get other := by
  simp [get, dropRecord, AList.lookup_erase_ne h]

@[simp] theorem mem_putIndex : key' ∈ (s.putIndex key).index ↔ key' = key ∨ key' ∈ s.index :=
  mem_insert_iff

@[simp] theorem mem_dropIndex : key' ∈ (s.dropIndex key).index ↔ key' ∈ s.index ∧ key' ≠ key := by
  simp [dropIndex]

variable {keys : List IndexKey}

theorem mem_idsByStatus :
    text ∈ idsByStatus keys status ↔ ∃ id : AnomalyId, .status status id ∈ keys ∧ id.1 = text := by
  simp only [idsByStatus, List.mem_map, mem_filter]
  constructor
  · rintro ⟨key, ⟨hkey, hselects⟩, rfl⟩
    obtain ⟨id, rfl⟩ := (statusFilter_selects_iff status key).1 hselects
    exact ⟨id, hkey, (extractIDFromIndexKey_status status id).symm⟩
  · rintro ⟨id, hid, rfl⟩
    exact ⟨_, ⟨hid, (statusFilter_selects_iff status _).2 ⟨id, rfl⟩⟩,
      extractIDFromIndexKey_status status id⟩

theorem nodup_idsByStatus (h : keys.Nodup) (status : AnomalyStatus) :
    (idsByStatus keys status).Nodup := by
  refine List.Nodup.map_on ?_ (h.filter _)
  intro key hkey key' hkey' htext
  obtain ⟨id, rfl⟩ := (statusFilter_selects_iff status key).1 (mem_filter.1 hkey).2
  obtain ⟨id', rfl⟩ := (statusFilter_selects_iff status key').1 (mem_filter.1 hkey').2
  have hid : id.1 = id'.1 := by
    rw [← extractIDFromIndexKey_status status id, ← extractIDFromIndexKey_status status id']
    exact htext
  rw [Subtype.ext hid]

end Store

end SemStreams.Inference
