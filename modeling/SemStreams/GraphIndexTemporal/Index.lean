import SemStreams.Graph.Entity
import SemStreams.Lib.Subject
import SemStreams.Lib.Timestamp
import Mathlib.Data.List.AList
import Mathlib.Data.List.Induction
/-!
# graph-index-temporal — time buckets and their maintenance

An entity is entered in the bucket of the minute, hour or day of its timestamp, and a
reverse mapping remembers the bucket, so that the entry can be moved when the timestamp
changes and removed when the entity is deleted. What the index holds after any sequence
of watched changes is one timestamp for each entity: the last that could be determined
since the entity was last deleted (`represents_indexOf`).
-/

namespace SemStreams.GraphIndexTemporal

open List Function Option

open SemStreams.Graph (EntityState Object Triple)

/-! ## Index timestamps -/

/-- A live entry of `ENTITY_STATES`, decoded. The key of an entity is its id. -/
structure Entry where
  key : String
  state : EntityState
  id_eq : state.id = key
  key_ne : key ≠ ""

/-- The id an entry is indexed under. -/
def Entry.entityID (u : Entry) : String :=
  if u.state.id ≠ "" then u.state.id
  else if u.key ≠ "" then u.key
  else (u.state.triples.head?.map Triple.subject).getD ""

theorem Entry.entityID_eq (u : Entry) : u.entityID = u.key := by
  rw [entityID, u.id_eq, if_pos u.key_ne]

def predicateObservationRecorded : String := "time.observation.recorded"

/-- A write time, counted in nanoseconds from the zero time of the year 1. -/
def writeTime (updatedAt : ℕ) : Time :=
  ⟨(updatedAt / 1000000000 : ℕ) - 62135596800, updatedAt % 1000000000, 0, Nat.mod_lt _ (by decide)⟩

section Resolve

/- The whole seconds of an object that is a number. -/
variable (number : String → Option ℤ)

/-- `parseTripleTime`, of the objects the decoder gives. The layouts tried after the
first accept no further text. -/
def parseTripleTime : Object → Option Time
  | .text value => Time.parse value
  | .json value => (number value).map Time.unix

def latestObservationTime (triples : List Triple) : Option Time :=
  triples.foldl (fun latest t =>
    if t.predicate ≠ predicateObservationRecorded then latest
    else match parseTripleTime number t.object, latest with
      | none, _ => latest
      | some time, none => some time
      | some time, some found => if found.nanos < time.nanos then some time else some found) none

/-- `resolveIndexTimestamp`. A write time of zero is no time. -/
def resolveIndexTimestamp (state : EntityState) : Option Time :=
  (latestObservationTime number state.triples).or
    (if state.updatedAt = 0 then none else some (writeTime state.updatedAt))

end Resolve

/-! ## Buckets -/

/-- The time resolutions a configuration may ask for. -/
inductive Resolution
  | minute
  | hour
  | day
deriving DecidableEq

/-- The parts of a bucket key behind the date. -/
def Resolution.clock (res : Resolution) (c : Time.Clock) : List (List Char) :=
  match res with
  | .minute => [padded 2 c.hour, padded 2 c.minute]
  | .hour => [padded 2 c.hour]
  | .day => []

def dateParts (date : Calendar.Date) : List (List Char) :=
  [padded 4 date.year, padded 2 date.month, padded 2 date.day]

def calculateTimeBucket (res : Resolution) (ts : Time) : String :=
  joinTokens (dateParts ts.utc.date ++ res.clock ts.utc)

structure Event where
  entity : String
  timestamp : String
deriving DecidableEq

/-- `TEMPORAL_INDEX` and the reverse mapping. -/
structure Index where
  buckets : AList fun _ : String => List Event
  reverse : AList fun _ : String => String

open Index

namespace Index

def empty : Index := ⟨∅, ∅⟩

def events (index : Index) (bucket : String) : List Event := (index.buckets.lookup bucket).getD []

def updateTemporalIndex (index : Index) (bucket entityID : String) (ts : Time) : Index :=
  let filtered := (index.events bucket).filter fun event => event.entity ≠ entityID
  { index with buckets := index.buckets.insert bucket (filtered ++ [⟨entityID, ts.format⟩]) }

def removeEntityFromBucket (index : Index) (bucket entityID : String) : Index :=
  match index.buckets.lookup bucket with
  | none => index
  | some events =>
    let filtered := events.filter fun event => event.entity ≠ entityID
    if filtered.length = events.length then index
    else if filtered = [] then { index with buckets := index.buckets.erase bucket }
    else { index with buckets := index.buckets.insert bucket filtered }

/-- Enters an entity in a bucket, and takes it out of the one it was in. -/
def relocate (index : Index) (prev : Option String) (bucket entityID : String) (ts : Time) : Index :=
  let added := index.updateTemporalIndex bucket entityID ts
  match prev with
  | some prev => if prev ≠ bucket then added.removeEntityFromBucket prev entityID else added
  | none => added

/-- The part of `processEntityUpdate` behind the timestamp. -/
def place (res : Resolution) (index : Index) (entityID : String) (ts : Time) : Index :=
  let bucket := calculateTimeBucket res ts
  let moved := index.relocate (index.reverse.lookup entityID) bucket entityID ts
  { moved with reverse := moved.reverse.insert entityID bucket }

def processEntityUpdate (number : String → Option ℤ) (res : Resolution) (index : Index) (u : Entry) :
    Index :=
  match resolveIndexTimestamp number u.state with
  | none => index
  | some ts => index.place res u.entityID ts

def handleEntityDelete (index : Index) (entityID : String) : Index :=
  match index.reverse.lookup entityID with
  | none => index
  | some prev =>
    let removed := index.removeEntityFromBucket prev entityID
    { removed with reverse := removed.reverse.erase entityID }

end Index

/-- A change of `ENTITY_STATES`, as it is watched. -/
inductive Change
  | update (entry : Entry)
  | delete (key : String)

section Run

variable (number : String → Option ℤ) (res : Resolution)

def applyEntityWatchEntry (index : Index) : Change → Index
  | .update entry => index.processEntityUpdate number res entry
  | .delete key => index.handleEntityDelete key

/-- **The index after a sequence of changes.** -/
def indexOf (changes : List Change) : Index :=
  changes.foldl (applyEntityWatchEntry number res) .empty

end Run

/-! ## Timestamps of entities -/

/-- A timestamp for each entity that has one. -/
abbrev Stamps := String → Option Time

section Stamps

variable (number : String → Option ℤ)

/-- The timestamp an entity has now: that of its last update, none once it is deleted. -/
def Stamps.current (stamps : Stamps) : Change → Stamps
  | .update entry => update stamps entry.key (resolveIndexTimestamp number entry.state)
  | .delete key => update stamps key none

/-- The timestamp an entity is indexed under: an update without one leaves it. -/
def Stamps.indexed (stamps : Stamps) : Change → Stamps
  | .update entry =>
    match resolveIndexTimestamp number entry.state with
    | none => stamps
    | some ts => update stamps entry.key (some ts)
  | .delete key => update stamps key none

def currentStamps (changes : List Change) : Stamps :=
  changes.foldl (Stamps.current number) fun _ => none

def indexedStamps (changes : List Change) : Stamps :=
  changes.foldl (Stamps.indexed number) fun _ => none

def existingAfter (keys : List String) : Change → List String
  | .update entry => if entry.key ∈ keys then keys else keys ++ [entry.key]
  | .delete key => keys.erase key

def existing (changes : List Change) : List String := changes.foldl existingAfter []

variable {number} {e : String}

theorem indexed_update_ne {stamps : Stamps} {entry : Entry} (h : e ≠ entry.key) :
    stamps.indexed number (.update entry) e = stamps e := by
  unfold Stamps.indexed
  dsimp only
  cases resolveIndexTimestamp number entry.state with
  | none => rfl
  | some ts => exact update_of_ne h ..

theorem isSome_indexedStamps (h : (indexedStamps number changes e).isSome) :
    e ∈ existing changes := by
  induction changes using List.reverseRecOn with
  | nil => cases h
  | append_singleton changes change ih =>
    rw [indexedStamps, foldl_concat] at h
    rw [existing, foldl_concat]
    cases change with
    | update entry =>
      rw [existingAfter]
      by_cases heq : e = entry.key
      · rw [heq]
        split
        · assumption
        · simp
      · rw [indexed_update_ne heq] at h
        split
        · exact ih h
        · exact mem_append_left _ (ih h)
    | delete key =>
      rw [Stamps.indexed] at h
      by_cases heq : e = key
      · rw [heq, update_self] at h
        cases h
      · rw [update_of_ne heq] at h
        exact (mem_erase_of_ne heq).2 (ih h)

/-- The time an entity has now is the one it is indexed under. -/
theorem indexedStamps_of_current {ts : Time} (h : currentStamps number changes e = some ts) :
    indexedStamps number changes e = some ts := by
  induction changes using List.reverseRecOn with
  | nil => cases h
  | append_singleton changes change ih =>
    rw [currentStamps, foldl_concat] at h
    rw [indexedStamps, foldl_concat]
    cases change with
    | update entry =>
      rw [Stamps.current] at h
      by_cases heq : e = entry.key
      · rw [heq, update_self] at h
        rw [Stamps.indexed, h, heq]
        exact update_self ..
      · rw [update_of_ne heq] at h
        rw [indexed_update_ne heq]
        exact ih h
    | delete key =>
      rw [Stamps.current] at h
      rw [Stamps.indexed]
      by_cases heq : e = key
      · rw [heq, update_self] at h
        cases h
      · rw [update_of_ne heq] at h ⊢
        exact ih h

end Stamps

/-! ## The index holds one timestamp for each entity -/

/-- **The index holds these timestamps**: an event for each, in its bucket, and no other;
and the reverse mapping knows the bucket. -/
structure Represents (res : Resolution) (index : Index) (stamps : Stamps) : Prop where
  reverse : ∀ e, index.reverse.lookup e = (stamps e).map (calculateTimeBucket res)
  events : ∀ bucket event, event ∈ index.events bucket ↔
    ∃ ts, stamps event.entity = some ts ∧ bucket = calculateTimeBucket res ts ∧
      event.timestamp = ts.format

section Steps

variable {res : Resolution} {index : Index} {stamps : Stamps} {bucket e : String} {ts : Time}
  {event : Event}

theorem reverse_removeEntityFromBucket :
    (index.removeEntityFromBucket bucket e).reverse = index.reverse := by
  unfold removeEntityFromBucket
  split
  · rfl
  · dsimp only
    split_ifs <;> rfl

variable (bucket' : String)

theorem events_removeEntityFromBucket : (index.removeEntityFromBucket bucket e).events bucket' =
      if bucket' = bucket then (index.events bucket).filter (fun event => event.entity ≠ e)
      else index.events bucket' := by
  unfold Index.removeEntityFromBucket
  cases hlookup : index.buckets.lookup bucket with
  | none =>
    split_ifs with hbucket
    · subst hbucket
      simp [Index.events, hlookup]
    · rfl
  | some events =>
    have hevents : index.events bucket = events := by rw [Index.events, hlookup, getD_some]
    dsimp only
    split_ifs with hlen hbucket hempty hbucket hbucket
    · -- nothing to remove
      rw [hbucket, hevents, filter_eq_self.2 (length_filter_eq_length_iff.1 hlen)]
    · rfl
    · subst hbucket
      rw [hevents, hempty]
      simp [Index.events]
    · simp [Index.events, AList.lookup_erase_ne hbucket]
    · subst hbucket
      rw [hevents]
      simp [Index.events]
    · simp [Index.events, AList.lookup_insert_ne hbucket]

/-- An entity has events in the bucket of the reverse mapping only. -/
theorem Represents.reverse_of_mem (h : Represents res index stamps) (hmem : event ∈ index.events bucket) :
    index.reverse.lookup event.entity = some bucket := by
  obtain ⟨_, hts, rfl, -⟩ := (h.events bucket event).1 hmem
  rw [h.reverse, hts, map_some]

theorem mem_events_added : event ∈ (index.updateTemporalIndex bucket e ts).events bucket' ↔
      bucket' = bucket ∧ event = ⟨e, ts.format⟩ ∨
        event ∈ index.events bucket' ∧ (bucket' = bucket → event.entity ≠ e) := by
  by_cases h : bucket' = bucket
  · subst h
    simp [updateTemporalIndex, events, or_comm]
  · simp [updateTemporalIndex, events, AList.lookup_insert_ne h, h]

theorem mem_events_removed : event ∈ (index.removeEntityFromBucket bucket e).events bucket' ↔
      event ∈ index.events bucket' ∧ (bucket' = bucket → event.entity ≠ e) := by
  rw [events_removeEntityFromBucket]
  split
  · next h =>
    subst h
    simp
  · next h => simp [h]

theorem reverse_relocate {prev : Option String} :
    (index.relocate prev bucket e ts).reverse = index.reverse := by
  unfold relocate
  split
  · split_ifs
    · exact reverse_removeEntityFromBucket
    · rfl
  · rfl

/-- **Moving an entity** takes out its old event and puts in the new one. -/
theorem Represents.mem_events_relocate (h : Represents res index stamps) (bucket' : String) :
    event ∈ (index.relocate (index.reverse.lookup e) bucket e ts).events bucket' ↔
      bucket' = bucket ∧ event = ⟨e, ts.format⟩ ∨ event ∈ index.events bucket' ∧ event.entity ≠ e := by
  have hold : event ∈ index.events bucket' → event.entity = e →
      index.reverse.lookup e = some bucket' :=
    fun hmem he => he ▸ h.reverse_of_mem hmem
  unfold relocate
  cases hprev : index.reverse.lookup e with
  | none =>
    rw [mem_events_added]
    grind
  | some prev =>
    dsimp only
    split_ifs with hmoves
    · rw [mem_events_removed, mem_events_added]
      grind
    · rw [mem_events_added]
      grind

theorem Represents.place (h : Represents res index stamps) :
    Represents res (index.place res e ts) (update stamps e (some ts)) where
  reverse e' := by
    show ((index.relocate _ _ e ts).reverse.insert e _).lookup e' = _
    rw [reverse_relocate]
    by_cases he : e' = e
    · subst he
      rw [AList.lookup_insert, update_self, map_some]
    · rw [AList.lookup_insert_ne he, update_of_ne he, h.reverse]
  events bucket event := by
    show event ∈ (index.relocate _ _ e ts).events bucket ↔ _
    rw [h.mem_events_relocate, h.events]
    by_cases he : event.entity = e
    · subst he
      obtain ⟨entity, _⟩ := event
      simp
    · have hother : event ≠ ⟨e, ts.format⟩ := fun heq => he (congrArg Event.entity heq)
      simp [hother, he]

/-- **Removing an entity.** -/
theorem Represents.handleEntityDelete (h : Represents res index stamps) :
    Represents res (index.handleEntityDelete e) (update stamps e none) := by
  unfold Index.handleEntityDelete
  cases hprev : index.reverse.lookup e with
  | none =>
    have hnone : stamps e = none := by
      rw [h.reverse, map_eq_none_iff] at hprev
      exact hprev
    rw [← hnone, update_eq_self]
    exact h
  | some prev =>
    constructor
    · intro e'
      show ((index.removeEntityFromBucket prev e).reverse.erase e).lookup e' = _
      rw [reverse_removeEntityFromBucket]
      by_cases he : e' = e
      · subst he
        rw [AList.lookup_erase, update_self, map_none]
      · rw [AList.lookup_erase_ne he, update_of_ne he, h.reverse]
    · intro bucket event
      show event ∈ (index.removeEntityFromBucket prev e).events bucket ↔ _
      rw [mem_events_removed]
      by_cases he : event.entity = e
      · subst he
        rw [update_self]
        constructor
        · rintro ⟨hmem, hout⟩
          have hsame := h.reverse_of_mem hmem
          rw [hprev, Option.some.injEq] at hsame
          exact absurd rfl (hout hsame.symm)
        · rintro ⟨_, hts, -⟩
          cases hts
      · rw [update_of_ne he, ← h.events]
        exact ⟨fun hmem => hmem.1, fun hmem => ⟨hmem, fun _ => he⟩⟩

end Steps

theorem Represents.applyEntityWatchEntry (h : Represents res index stamps) (change : Change) :
    Represents res (applyEntityWatchEntry number res index change) (stamps.indexed number change) := by
  cases change with
  | update entry =>
    simp only [GraphIndexTemporal.applyEntityWatchEntry, processEntityUpdate, Stamps.indexed,
      Entry.entityID_eq]
    cases resolveIndexTimestamp number entry.state with
    | none => exact h
    | some ts => exact h.place
  | delete key => exact h.handleEntityDelete

/-- **The index represents the timestamps of the entities**, after every sequence of
changes. -/
theorem represents_indexOf (changes : List Change) :
    Represents res (indexOf number res changes) (indexedStamps number changes) := by
  unfold indexOf indexedStamps
  have hempty : Represents res empty fun _ => none :=
    ⟨fun _ => rfl, fun _ _ => by simp [events, empty]⟩
  generalize empty = index at hempty ⊢
  generalize (fun _ => none : Stamps) = stamps at hempty ⊢
  induction changes generalizing index stamps with
  | nil => exact hempty
  | cons change changes ih => exact ih _ _ (hempty.applyEntityWatchEntry change)

end SemStreams.GraphIndexTemporal
