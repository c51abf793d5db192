import SemStreams.Graph.Entity
import SemStreams.Lib.Checks
import Mathlib.Data.List.Chain
import Mathlib.Data.List.Sort
/-!
# Lifecycle — transition records

The last transitions of an entity are kept in its own triples. A record is a
group of four or five triples with one occurrence id as their context; the
entity carries at most sixty-four of them. Reading groups the triples by their
context, decodes each group and sorts by time.

What a writer encodes a reader gets back: `decode_encode`. It is stated for
records with different ids in the order of their times, which is what the
writers keep.
-/

namespace SemStreams.Lifecycle

open SemStreams.Graph List

/-! ## Records and their triples -/

/-- `time.Format` and `time.Parse` of the RFC 3339 layout with nanoseconds. -/
structure TimeLayout where
  format : ℕ → String
  parse : String → Option ℕ
  parse_format : ∀ t, parse (format t) = some t

structure TransitionEvent where
  fromPhase : String
  toPhase : String
  time : ℕ
  triggered : String
  note : String
deriving DecidableEq

structure TransitionRecord where
  id : String
  event : TransitionEvent
deriving DecidableEq

def transitionHistoryLimit : ℕ := 64

def transitionPredicateFrom : String := "lifecycle.transition.from"
def transitionPredicateTo : String := "lifecycle.transition.to"
def transitionPredicateAt : String := "lifecycle.transition.at"
def transitionPredicateSource : String := "lifecycle.transition.source"
def transitionPredicateNote : String := "lifecycle.transition.note"

def transitionRecordPredicates : List String :=
  [transitionPredicateFrom, transitionPredicateTo, transitionPredicateAt,
    transitionPredicateSource, transitionPredicateNote]

def isTransitionRecordPredicate (predicate : String) : Bool :=
  predicate ∈ transitionRecordPredicates

def isTransitionSource (source : String) : Bool :=
  source = "rule" || source = "operator" || source = "component" || source = "framework"

variable (layout : TimeLayout) (entityID : String)

/-- The fields of a record; the note only where there is one. -/
def recordFields (r : TransitionRecord) : List (String × String) :=
  [(transitionPredicateFrom, r.event.fromPhase), (transitionPredicateTo, r.event.toPhase),
    (transitionPredicateAt, layout.format r.event.time),
    (transitionPredicateSource, r.event.triggered)] ++
    if r.event.note = "" then [] else [(transitionPredicateNote, r.event.note)]

def recordTriple (r : TransitionRecord) (field : String × String) : Triple where
  subject := entityID
  predicate := field.1
  object := .text field.2
  timestamp := r.event.time
  context := r.id

def recordTriples (r : TransitionRecord) : List Triple :=
  (recordFields layout r).map (recordTriple entityID r)

def transitionRecordsToTriples (records : List TransitionRecord) : List Triple :=
  records.flatMap (recordTriples layout entityID)

/-! ## Reading them back -/

inductive RecordError
  | foreignSubject
  | noContext
  | nonString
  | repeatedPredicate
  | overLimit
  | noTarget
  | noSource
  | noTimestamp
  | badTimestamp
  | badTrigger
  | noBirth
  | brokenChain
  | phaseMismatch
deriving DecidableEq

/-- The fields found under each context. -/
abbrev Groups := List (String × List (String × String))

/-- Adds a field to its group; `none` when the group has it already. -/
def addField (context : String) (field : String × String) : Groups → Option Groups
  | [] => some [(context, [field])]
  | (id, fields) :: rest =>
    if id = context then
      if fields.any fun f => f.1 = field.1 then none else some ((id, fields ++ [field]) :: rest)
    else (addField context field rest).map ((id, fields) :: ·)

/-- The loop of `decodeTransitionRecords` over the triples. -/
def groupTriples (entityID : String) (groups : Groups) : List Triple → Except RecordError Groups
  | [] => .ok groups
  | t :: rest =>
    if !isTransitionRecordPredicate t.predicate then groupTriples entityID groups rest
    else if t.subject ≠ entityID then .error .foreignSubject
    else if t.context = "" then .error .noContext
    else
      match t.object with
      | .json _ => .error .nonString
      | .text value =>
        match addField t.context (t.predicate, value) groups with
        | none => .error .repeatedPredicate
        | some groups => groupTriples entityID groups rest

def fieldValue (fields : List (String × String)) (predicate : String) : Option String :=
  (fields.find? fun f => f.1 = predicate).map Prod.snd

/-- One group as a record. -/
def decodeGroup (layout : TimeLayout) (id : String) (fields : List (String × String)) :
    Except RecordError TransitionRecord :=
  match fieldValue fields transitionPredicateTo with
  | none => .error .noTarget
  | some toPhase =>
    if toPhase = "" then .error .noTarget
    else
      match fieldValue fields transitionPredicateFrom with
      | none => .error .noSource
      | some fromPhase =>
        match fieldValue fields transitionPredicateAt with
        | none => .error .noTimestamp
        | some atText =>
          match layout.parse atText with
          | none => .error .badTimestamp
          | some time =>
            let triggered := (fieldValue fields transitionPredicateSource).getD ""
            if !isTransitionSource triggered then .error .badTrigger
            else
              .ok ⟨id, fromPhase, toPhase, time, triggered,
                (fieldValue fields transitionPredicateNote).getD ""⟩

def decodeGroups (layout : TimeLayout) : Groups → Except RecordError (List TransitionRecord)
  | [] => .ok []
  | (id, fields) :: rest =>
    match decodeGroup layout id fields with
    | .error err => .error err
    | .ok record =>
      match decodeGroups layout rest with
      | .error err => .error err
      | .ok records => .ok (record :: records)

/-- The order of `sortTransitionRecords`. -/
def recordLE (r r' : TransitionRecord) : Prop :=
  r.event.time < r'.event.time ∨ (r.event.time = r'.event.time ∧ r.id ≤ r'.id)

instance : DecidableRel recordLE := fun r r' =>
  inferInstanceAs (Decidable (r.event.time < r'.event.time ∨ (r.event.time = r'.event.time ∧ r.id ≤ r'.id)))

def sortTransitionRecords (records : List TransitionRecord) : List TransitionRecord :=
  records.insertionSort recordLE

def decodeTransitionRecords (layout : TimeLayout) (entityID : String) (triples : List Triple) :
    Except RecordError (List TransitionRecord) :=
  match groupTriples entityID [] triples with
  | .error err => .error err
  | .ok groups =>
    if groups.length > transitionHistoryLimit then .error .overLimit
    else
      match decodeGroups layout groups with
      | .error err => .error err
      | .ok records => .ok (sortTransitionRecords records)

/-- The loop of `validateTransitionRecordChain`. -/
def validateLinks : List TransitionRecord → Except RecordError Unit
  | r :: r' :: rest =>
    if r'.event.fromPhase ≠ r.event.toPhase then .error .brokenChain
    else validateLinks (r' :: rest)
  | _ => .ok ()

def validateTransitionRecordChain (records : List TransitionRecord) (currentPhase : String) :
    Except RecordError Unit :=
  match records.getLast? with
  | none => .error .noBirth
  | some last =>
    match validateLinks records with
    | .error err => .error err
    | .ok () => if last.event.toPhase ≠ currentPhase then .error .phaseMismatch else .ok ()

/-! ## The next record -/

def nextTransitionTimestamp (records : List TransitionRecord) (observed : ℕ) : ℕ :=
  match records.getLast? with
  | none => observed
  | some latest => if latest.event.time < observed then observed else latest.event.time + 1

def appendTransitionRecord (records : List TransitionRecord) (record : TransitionRecord) :
    List TransitionRecord :=
  let records := sortTransitionRecords (records ++ [record])
  records.drop (records.length - transitionHistoryLimit)

/-! ## What a writer keeps

The records of an entity as the writers leave them. -/

structure Kept (records : List TransitionRecord) : Prop where
  ids : (records.map TransitionRecord.id).Nodup
  named : ∀ r ∈ records, r.id ≠ ""
  targets : ∀ r ∈ records, r.event.toPhase ≠ ""
  triggers : ∀ r ∈ records, isTransitionSource r.event.triggered = true
  ordered : records.Pairwise fun r r' => r.event.time < r'.event.time
  bounded : records.length ≤ transitionHistoryLimit

variable {layout} {entityID} {groups : Groups} {field : String × String} {r : TransitionRecord}
  {records : List TransitionRecord} {rest : List Triple}

/-- Only the triples with a record predicate are read. -/
theorem groupTriples_filter : groupTriples entityID groups ts =
    groupTriples entityID groups (ts.filter fun t => isTransitionRecordPredicate t.predicate) := by
  induction ts generalizing groups with
  | nil => rfl
  | cons t ts ih =>
    cases ht : isTransitionRecordPredicate t.predicate with
    | false => rw [filter_cons_of_neg (by simp [ht]), ← ih, groupTriples, ht]; rfl
    | true =>
      rw [filter_cons_of_pos (by simpa using ht), groupTriples, groupTriples]
      simp only [ih]

theorem addField_fresh (h : context ∉ groups.map Prod.fst) :
    addField context field groups = some (groups ++ [(context, [field])]) := by
  induction groups with
  | nil => rfl
  | cons g groups ih =>
    rw [map_cons, mem_cons, not_or] at h
    rw [addField, if_neg (Ne.symm h.1), ih h.2]
    rfl

theorem addField_last (h : context ∉ groups.map Prod.fst) (hfield : field.1 ∉ fields.map Prod.fst) :
    addField context field (groups ++ [(context, fields)]) =
      some (groups ++ [(context, fields ++ [field])]) := by
  induction groups with
  | nil =>
    have hnone : fields.any (fun f => f.1 = field.1) = false := by
      rw [List.any_eq_false]
      intro f hf heq
      exact hfield (List.mem_map.2 ⟨f, hf, by simpa using heq⟩)
    simp [addField, hnone]
  | cons g groups ih =>
    rw [map_cons, mem_cons, not_or] at h
    rw [cons_append, addField, if_neg (Ne.symm h.1), ih h.2]
    rfl

/-- The step of the loop on a triple of a record. -/
theorem groupTriples_recordTriple (hcontext : r.id ≠ "")
    (hfield : isTransitionRecordPredicate field.1)
    (hadd : addField r.id field groups = some groups') :
    groupTriples entityID groups (recordTriple entityID r field :: rest) =
      groupTriples entityID groups' rest := by
  rw [groupTriples]
  simp [recordTriple, hfield, hcontext, hadd]

/-- The rest of a record's fields go to its group, the last one. -/
theorem groupTriples_fields (hcontext : r.id ≠ "") (hfresh : r.id ∉ groups.map Prod.fst)
    (htodo : ∀ f ∈ todo, isTransitionRecordPredicate f.1)
    (hnodup : ((fields ++ todo).map Prod.fst).Nodup) :
    groupTriples entityID (groups ++ [(r.id, fields)])
        (todo.map (recordTriple entityID r) ++ rest) =
      groupTriples entityID (groups ++ [(r.id, fields ++ todo)]) rest := by
  induction todo generalizing fields with
  | nil => simp
  | cons f todo ih =>
    have hf : f.1 ∉ fields.map Prod.fst := by
      rw [map_append, nodup_append] at hnodup
      exact fun hmem => hnodup.2.2 f.1 hmem f.1 (by simp) rfl
    rw [map_cons, cons_append, groupTriples_recordTriple hcontext
      (htodo f mem_cons_self) (addField_last hfresh hf), ih
      (fun g hg => htodo g (mem_cons_of_mem f hg)) (by simpa using hnodup)]
    simp

theorem nodup_recordFields (layout : TimeLayout) (r : TransitionRecord) :
    ((recordFields layout r).map Prod.fst).Nodup := by
  unfold recordFields
  split <;> simp [transitionPredicateFrom, transitionPredicateTo, transitionPredicateAt,
    transitionPredicateSource, transitionPredicateNote]

theorem isRecord_of_mem_recordFields (h : field ∈ recordFields layout r) :
    isTransitionRecordPredicate field.1 := by
  unfold recordFields at h
  unfold isTransitionRecordPredicate transitionRecordPredicates
  split at h
  · simp only [append_nil, mem_cons, not_mem_nil, or_false] at h
    rcases h with rfl | rfl | rfl | rfl <;> simp
  · simp only [mem_append, mem_cons, not_mem_nil, or_false] at h
    rcases h with (rfl | rfl | rfl | rfl) | rfl <;> simp

/-- The triples of a record become a group of their own. -/
theorem groupTriples_recordTriples (hcontext : r.id ≠ "") (hfresh : r.id ∉ groups.map Prod.fst) :
    groupTriples entityID groups (recordTriples layout entityID r ++ rest) =
      groupTriples entityID (groups ++ [(r.id, recordFields layout r)]) rest := by
  have hnodup := nodup_recordFields layout r
  have hrecord : ∀ f ∈ recordFields layout r, isTransitionRecordPredicate f.1 :=
    fun _ hf => isRecord_of_mem_recordFields hf
  unfold recordTriples
  cases hfields : recordFields layout r with
  | nil => exact absurd hfields (by simp [recordFields])
  | cons f todo =>
    rw [hfields] at hnodup hrecord
    rw [map_cons, cons_append, groupTriples_recordTriple hcontext
      (hrecord f mem_cons_self) (addField_fresh hfresh), groupTriples_fields hcontext hfresh
      (fun g hg => hrecord g (mem_cons_of_mem f hg)) hnodup]
    rfl

theorem groupTriples_records (hids : (groups.map Prod.fst ++ records.map TransitionRecord.id).Nodup)
    (hnamed : ∀ r ∈ records, r.id ≠ "") :
    groupTriples entityID groups (transitionRecordsToTriples layout entityID records) =
      .ok (groups ++ records.map fun r => (r.id, recordFields layout r)) := by
  induction records generalizing groups with
  | nil => simp [transitionRecordsToTriples, groupTriples]
  | cons r records ih =>
    have hfresh : r.id ∉ groups.map Prod.fst := by
      rw [nodup_append] at hids
      exact fun hmem => hids.2.2 r.id hmem r.id (by simp) rfl
    rw [transitionRecordsToTriples, flatMap_cons,
      groupTriples_recordTriples (hnamed r mem_cons_self) hfresh]
    refine (ih ?_ fun x hx => hnamed x (mem_cons_of_mem r hx)).trans ?_
    · simpa using hids
    · simp

theorem decodeGroup_recordFields (htarget : r.event.toPhase ≠ "")
    (htrigger : isTransitionSource r.event.triggered) :
    decodeGroup layout r.id (recordFields layout r) = .ok r := by
  obtain ⟨id, _, toPhase, _, triggered, note⟩ := r
  by_cases hnote : note = "" <;>
    simp_all [decodeGroup, fieldValue, recordFields, layout.parse_format, transitionPredicateFrom,
      transitionPredicateTo, transitionPredicateAt, transitionPredicateSource,
      transitionPredicateNote]

theorem decodeGroups_records (htargets : ∀ r ∈ records, r.event.toPhase ≠ "")
    (htriggers : ∀ r ∈ records, isTransitionSource r.event.triggered) :
    decodeGroups layout (records.map fun r => (r.id, recordFields layout r)) = .ok records := by
  induction records with
  | nil => rfl
  | cons r records ih =>
    rw [map_cons, decodeGroups, decodeGroup_recordFields (htargets r mem_cons_self)
      (htriggers r mem_cons_self)]
    rw [ih (fun x hx => htargets x (mem_cons_of_mem r hx))
      fun x hx => htriggers x (mem_cons_of_mem r hx)]

theorem sortTransitionRecords_of_ordered
    (h : records.Pairwise fun r r' => r.event.time < r'.event.time) :
    sortTransitionRecords records = records :=
  List.Pairwise.insertionSort_eq (h.imp fun hlt => .inl hlt)

/-- **A reader gets the records a writer left**, whatever other triples there are. -/
theorem decode_encode (hkept : Kept records)
    (h : (ts.filter fun t => isTransitionRecordPredicate t.predicate) =
      transitionRecordsToTriples layout entityID records) :
    decodeTransitionRecords layout entityID ts = .ok records := by
  unfold decodeTransitionRecords
  rw [groupTriples_filter, h, groupTriples_records (by simpa using hkept.ids) hkept.named]
  simp only [nil_append]
  rw [if_neg (by simpa using hkept.bounded), decodeGroups_records hkept.targets hkept.triggers]
  simp only
  rw [sortTransitionRecords_of_ordered hkept.ordered]

variable {record last : TransitionRecord}

/-- Each record starts where the one before it ended. -/
def Linked (records : List TransitionRecord) : Prop :=
  records.IsChain fun r r' => r'.event.fromPhase = r.event.toPhase

theorem validateLinks_eq_ok : validateLinks records = .ok () ↔ Linked records := by
  fun_induction validateLinks records with
  | case1 r r' rest hne =>
    refine iff_of_false (by simp) fun h => ?_
    cases h with
    | cons_cons hlink => exact hne hlink
  | case2 r r' rest heq ih =>
    rw [ih]
    refine ⟨fun h => .cons_cons (by simpa using heq) h, fun h => ?_⟩
    cases h with
    | cons_cons _ h => exact h
  | case3 records hshort =>
    refine iff_of_true rfl ?_
    match records, hshort with
    | [], _ => exact .nil
    | [r], _ => exact .singleton r
    | r :: r' :: rest, hshort => exact absurd rfl (hshort r r' rest)

/-- **What the chain check accepts**: linked records that end in the phase. -/
theorem validateTransitionRecordChain_eq_ok : validateTransitionRecordChain records phase = .ok () ↔
      Linked records ∧ ∃ last, records.getLast? = some last ∧ last.event.toPhase = phase := by
  unfold validateTransitionRecordChain
  cases hlast : records.getLast? with
  | none => simp
  | some last =>
    rw [← validateLinks_eq_ok]
    cases hlinks : validateLinks records with
    | error err => simp
    | ok u => by_cases h : last.event.toPhase = phase <;> simp [h]

theorem Kept.le_last (h : Kept records) (hlast : records.getLast? = some last) (hr : r ∈ records) :
    r.event.time ≤ last.event.time := by
  obtain ⟨_, rfl⟩ := List.getLast?_eq_some_iff.1 hlast
  rcases mem_append.1 hr with hinit | hself
  · exact Nat.le_of_lt ((pairwise_append.1 h.ordered).2.2 r hinit last (by simp))
  · rw [mem_singleton.1 hself]

/-- **The next time is later than every recorded one**, whatever the clock says. -/
theorem lt_nextTransitionTimestamp (h : Kept records) (hr : r ∈ records) :
    r.event.time < nextTransitionTimestamp records observed := by
  unfold nextTransitionTimestamp
  cases hlast : records.getLast? with
  | none =>
    rw [List.getLast?_eq_none_iff.1 hlast] at hr
    exact nomatch hr
  | some last =>
    have hle := h.le_last hlast hr
    dsimp only
    split <;> omega

theorem Kept.ordered_append (h : Kept records)
    (hlater : ∀ r ∈ records, r.event.time < record.event.time) :
    (records ++ [record]).Pairwise fun r r' => r.event.time < r'.event.time := by
  refine pairwise_append.2 ⟨h.ordered, pairwise_singleton _ _, ?_⟩
  intro r hr r' hr'
  rw [mem_singleton.1 hr']
  exact hlater r hr

/-- A later record goes to the end of the window. -/
theorem appendTransitionRecord_eq (h : Kept records)
    (hlater : ∀ r ∈ records, r.event.time < record.event.time) :
    appendTransitionRecord records record =
      (records ++ [record]).drop (records.length + 1 - transitionHistoryLimit) := by
  unfold appendTransitionRecord
  rw [sortTransitionRecords_of_ordered (h.ordered_append hlater)]
  dsimp only
  rw [length_append, length_singleton]

/-- A window that keeps the records it had but for the oldest is kept. -/
theorem Kept.append (h : Kept records) (hid : record.id ∉ records.map TransitionRecord.id)
    (hnamed : record.id ≠ "") (htarget : record.event.toPhase ≠ "")
    (htrigger : isTransitionSource record.event.triggered)
    (hlater : ∀ r ∈ records, r.event.time < record.event.time) :
    Kept (appendTransitionRecord records record) := by
  rw [appendTransitionRecord_eq h hlater]
  have hmem : ∀ {P : TransitionRecord → Prop}, (∀ r ∈ records, P r) → P record →
      ∀ r ∈ (records ++ [record]).drop (records.length + 1 - transitionHistoryLimit), P r := by
    intro P hall hnew r hr
    rcases mem_append.1 (mem_of_mem_drop hr) with hr | hr
    · exact hall r hr
    · exact mem_singleton.1 hr ▸ hnew
  refine ⟨?_, hmem h.named hnamed, hmem h.targets htarget, hmem h.triggers htrigger, ?_, ?_⟩
  · refine List.Nodup.sublist ((drop_sublist _ _).map _) ?_
    rw [map_append, nodup_append]
    refine ⟨h.ids, by simp, ?_⟩
    rintro x hx _ hy rfl
    have hxid : x = record.id := by simpa using hy
    exact hid (hxid ▸ hx)
  · exact List.Pairwise.sublist (drop_sublist _ _) (h.ordered_append hlater)
  · rw [length_drop, length_append, length_singleton]
    omega

theorem getLast?_appendTransitionRecord (h : Kept records)
    (hlater : ∀ r ∈ records, r.event.time < record.event.time) :
    (appendTransitionRecord records record).getLast? = some record := by
  have hlen : ¬ (records ++ [record]).length ≤ records.length + 1 - transitionHistoryLimit := by
    rw [length_append, length_singleton, transitionHistoryLimit]
    omega
  rw [appendTransitionRecord_eq h hlater, List.getLast?_drop, if_neg hlen]
  simp

theorem Linked.append (hlinked : Linked records) (h : Kept records)
    (hlast : records.getLast? = some last) (hfrom : record.event.fromPhase = last.event.toPhase)
    (hlater : ∀ r ∈ records, r.event.time < record.event.time) :
    Linked (appendTransitionRecord records record) := by
  rw [appendTransitionRecord_eq h hlater]
  refine List.IsChain.drop (isChain_append.2 ⟨hlinked, .singleton record, ?_⟩) _
  intro x hx y hy
  rw [hlast] at hx
  cases hx
  cases hy
  exact hfrom

end SemStreams.Lifecycle
