import SemStreams.Graph.Entity
import SemStreams.Lib.Run
import Mathlib.Data.List.AList
/-!
# graph-embedding — the two hops of the embedding pipeline

Hop 1 follows `ENTITY_STATES`: it takes the changes of an entity as they are watched, or
reads the entity when a batch is flushed or a repair comes round, and leaves a pending
record in `EMBEDDING_INDEX`, or none where there is no text. One lock serialises it. Hop 2
is any number of workers that take pending records off the watch of the index, find the
text and its vector, and write the outcome, all without a lock: only the compare-and-set
of the index and the source revisions of the records order them.

The model follows one entity. Others share nothing with it but the vectors kept by text.
-/

namespace SemStreams.GraphEmbedding

open SemStreams.Graph (EntityState)

/-! ## Texts -/

/-- `embedding.StorageRef`. -/
structure StorageRef where
  storageInstance : String
  key : String
deriving DecidableEq

/-- What a pending record says about its text. -/
structure Source where
  sourceText : String
  identityText : String
  storageRef : Option StorageRef
deriving DecidableEq

/-- What the pipeline is given: whether updates are coalesced, the text of the triples,
the stores that are registered, the bodies they hold (nothing where a store is gone), the
cap on texts, and the embedder. -/
structure Config (Vec : Type) where
  coalescing : Bool
  extractText : EntityState → String
  registered : String → Bool
  fetchText : StorageRef → String
  truncate : String → String
  embed : String → Vec

section Texts

variable {Vec : Type} (c : Config Vec)

/-- The inline lane of `queueEntityForEmbedding`; `none` where there is no text. -/
def inlineSource (state : EntityState) : Option Source :=
  if c.extractText state = "" then none else some ⟨c.extractText state, "", none⟩

/-- The pending record hop 1 makes of an entity. -/
def pendingSource (state : EntityState) : Option Source :=
  match state.storageRef with
  | none => inlineSource c state
  | some ref =>
    if c.registered ref.storageInstance then
      some ⟨"", c.extractText state, some ⟨ref.storageInstance, ref.key⟩⟩
    else inlineSource c state

def getSourceText (source : Source) : String :=
  match source.storageRef with
  | none => c.truncate source.sourceText
  | some ref =>
    let body := c.fetchText ref
    c.truncate
      (if source.identityText ≠ "" ∧ body ≠ "" then source.identityText ++ "\n\n" ++ body
        else if source.identityText ≠ "" then source.identityText
        else body)

def textOf (state : EntityState) : String := (pendingSource c state).elim "" (getSourceText c)

end Texts

/-! ## State -/

/-- The status of a record, with what comes with it. -/
inductive Content (Vec : Type)
  | pending (source : Source)
  | generated (vector : Vec)
deriving DecidableEq

/-- `embedding.Record`. -/
structure Record (Vec : Type) where
  content : Content Vec
  sourceRevision : ℕ
deriving DecidableEq

/-- A change of the entity: its new state, or none for a tombstone. -/
structure Change where
  revision : ℕ
  state : Option EntityState

/-- What hop 1 does under its lock. A save reads the index and then writes at the revision
it has read, or creates the key. -/
inductive Hop1
  | idle
  | delete
  | reading (revision : ℕ) (source : Source) (attempt : ℕ)
  | writing (revision : ℕ) (source : Source) (attempt : ℕ) (seen : Option ℕ)

/-- What a worker does with its record. -/
inductive Phase (Vec : Type)
  | taken
  | reading (vector : Vec) (attempt : ℕ)
  | writing (vector : Vec) (attempt : ℕ) (seen : ℕ)
  | finished

/-- A worker, with the pending record it has taken and the revision of its entry. -/
structure Worker (Vec : Type) where
  entry : ℕ
  revision : ℕ
  source : Source
  phase : Phase Vec

/-- The entity, the pipeline and the record of the entity. -/
structure State (Vec : Type) where
  /-- The last revision of the entity, and its state. -/
  last : ℕ
  current : Option EntityState
  /-- The changes the watcher has not taken yet, and the one it has in hand. -/
  feed : List Change
  hand : Option Change
  /-- The entity is in the coalescer; and the batches that have taken it out. -/
  queued : Bool
  flushing : ℕ
  hop1 : Hop1
  stranded : Option ℕ
  /-- The record, and the last revision of its key. -/
  index : Option (Record Vec)
  kv : ℕ
  /-- The writes of the index the workers have not taken yet. -/
  puts : List (ℕ × Record Vec)
  dedup : AList fun _ : String => Vec
  workers : AList fun _ : ℕ => Worker Vec

variable {Vec : Type} (c : Config Vec)

/-- Nothing has happened. -/
def State.initial : State Vec where
  last := 0
  current := none
  feed := []
  hand := none
  queued := false
  flushing := 0
  hop1 := .idle
  stranded := none
  index := none
  kv := 0
  puts := []
  dedup := ∅
  workers := ∅

def maxCASRetries : ℕ := 3

def State.put (s : State Vec) (record : Record Vec) : State Vec :=
  { s with index := some record, kv := s.kv + 1, puts := s.puts ++ [(s.kv + 1, record)] }

def State.deleteEmbedding (s : State Vec) : State Vec := { s with index := none, kv := s.kv + 1 }

/-- What hop 1 sets out to do for a change: `applyEntityTombstone`, and
`queueEntityForEmbedding` for a state. -/
def hop1Of (change : Change) : Hop1 :=
  match change.state.bind (pendingSource c) with
  | none => .delete
  | some source => .reading change.revision source 0

/-- The change that makes the entity what it is. -/
def State.present (s : State Vec) : Change := ⟨s.last, s.current⟩

/-- `applyEntityWatchEntry`, up to the lock. -/
def State.watch (s : State Vec) (change : Change) (rest : List Change) : State Vec :=
  if c.coalescing then
    match change.state with
    | some _ => { s with feed := rest, queued := true }
    | none => { s with feed := rest, queued := false, hand := some change }
  else { s with feed := rest, hand := some change }

/-- Hop 1 is done, and discharges any stranding. -/
def State.converged (s : State Vec) : State Vec := { s with hop1 := .idle, stranded := none }

/-- The read of `SavePendingGuarded`: a generated record of the same or a newer revision
stands. -/
def State.hop1Read (s : State Vec) (revision : ℕ) (source : Source) (attempt : ℕ) : State Vec :=
  match s.index with
  | none => { s with hop1 := .writing revision source attempt none }
  | some record =>
    match record.content with
    | .generated _ =>
      if revision ≤ record.sourceRevision then s.converged
      else { s with hop1 := .writing revision source attempt (some s.kv) }
    | .pending _ => { s with hop1 := .writing revision source attempt (some s.kv) }

/-- The key is as it was read. -/
def State.unmoved (s : State Vec) : Option ℕ → Bool
  | none => s.index.isNone
  | some k => s.kv = k

/-- The write of `SavePendingGuarded`. -/
def State.hop1Write (s : State Vec) (revision : ℕ) (source : Source) (attempt : ℕ)
    (seen : Option ℕ) : State Vec :=
  if s.unmoved seen then (s.put ⟨.pending source, revision⟩).converged
  else if attempt + 1 < maxCASRetries then { s with hop1 := .reading revision source (attempt + 1) }
  else { s with hop1 := .idle, stranded := some revision }

/-- A step of hop 1 under its lock. -/
def State.advance (s : State Vec) : Option (State Vec) :=
  match s.hop1 with
  | .idle => none
  | .delete => some s.deleteEmbedding.converged
  | .reading revision source attempt => some (s.hop1Read revision source attempt)
  | .writing revision source attempt seen => some (s.hop1Write revision source attempt seen)

def State.setWorker (s : State Vec) (i : ℕ) (w : Worker Vec) : State Vec :=
  { s with workers := s.workers.insert i w }

/-- A worker takes an entry, and keeps it if it is pending. -/
def State.takeEntry (s : State Vec) (i entry : ℕ) (record : Record Vec) (rest : List (ℕ × Record Vec)) :
    State Vec :=
  match record.content with
  | .pending source =>
    { s with puts := rest }.setWorker i ⟨entry, record.sourceRevision, source, .taken⟩
  | .generated _ => { s with puts := rest }

/-- The vector of a text: one that is kept, or a new one, which is kept then. -/
def State.generate (s : State Vec) (text : String) : Vec × State Vec :=
  match s.dedup.lookup text with
  | some vector => (vector, s)
  | none => (c.embed text, { s with dedup := s.dedup.insert text (c.embed text) })

/-- The steps of `handleKVEntry` and `SaveGenerated`. -/
def State.work (s : State Vec) (i : ℕ) (w : Worker Vec) : State Vec :=
  match w.phase with
  | .taken =>
    let text := getSourceText c w.source
    if text = "" then s.deleteEmbedding.setWorker i { w with phase := .finished }
    else
      let (vector, s') := s.generate c text
      s'.setWorker i { w with phase := .reading vector 0 }
  | .reading vector attempt =>
    match s.index with
    | none => s.setWorker i { w with phase := .finished }
    | some record =>
      if w.revision < record.sourceRevision then s.setWorker i { w with phase := .finished }
      else s.setWorker i { w with phase := .writing vector attempt s.kv }
  | .writing vector attempt seen =>
    if s.kv = seen then
      (s.put ⟨.generated vector, w.revision⟩).setWorker i { w with phase := .finished }
    else if attempt + 1 < maxCASRetries then
      s.setWorker i { w with phase := .reading vector (attempt + 1) }
    else { s with workers := s.workers.erase i }
  | .finished =>
    { s with
      workers := s.workers.erase i
      stranded := if s.stranded.any (· ≤ w.revision) then none else s.stranded }

/-- What can happen. -/
inductive Event
  /-- The entity is written or deleted. -/
  | upsert (revision : ℕ) (state : EntityState)
  | remove (revision : ℕ)
  /-- The watcher takes a change, and gets the lock for it. -/
  | watch
  | acquire
  /-- The coalescer flushes; the batch, or a repair, reads the entity under the lock. -/
  | flush
  | reconcile
  | repair
  /-- Hop 1 goes on. -/
  | advance
  /-- A worker takes an entry, and goes on with it. -/
  | take (i : ℕ)
  | work (i : ℕ)
  /-- Another entity leaves the vector of a text. -/
  | share (text : String)

/-- **One step.** -/
def step (s : State Vec) : Event → Option (State Vec)
  | .upsert revision state =>
    if s.last < revision then
      some { s with last := revision, current := some state, feed := s.feed ++ [⟨revision, some state⟩] }
    else none
  | .remove revision =>
    if s.last < revision then
      some { s with last := revision, current := none, feed := s.feed ++ [⟨revision, none⟩] }
    else none
  | .watch =>
    match s.hand, s.feed with
    | none, change :: rest => some (s.watch c change rest)
    | _, _ => none
  | .acquire =>
    match s.hand, s.hop1 with
    | some change, .idle => some { s with hand := none, hop1 := hop1Of c change }
    | _, _ => none
  | .flush => if s.queued then some { s with queued := false, flushing := s.flushing + 1 } else none
  | .reconcile =>
    match s.flushing, s.hop1 with
    | n + 1, .idle => some { s with flushing := n, hop1 := hop1Of c s.present }
    | _, _ => none
  | .repair =>
    match s.hop1 with
    | .idle => some { s with hop1 := hop1Of c s.present }
    | _ => none
  | .advance => s.advance
  | .take i =>
    match s.workers.lookup i, s.puts with
    | none, (entry, record) :: rest => some (s.takeEntry i entry record rest)
    | _, _ => none
  | .work i => (s.workers.lookup i).map (s.work c i)
  | .share text => some { s with dedup := s.dedup.insert text (c.embed text) }

/-! ## Convergence -/

/-- Every change is delivered and no step is pending. -/
structure Quiescent (s : State Vec) : Prop where
  feed : s.feed = []
  hand : s.hand = none
  queued : s.queued = false
  flushing : s.flushing = 0
  hop1 : s.hop1 = .idle
  stranded : s.stranded = none
  puts : s.puts = []
  workers : s.workers = ∅

/-- **The index is what the entity asks for**: it holds a vector exactly if the entity
yields a text, and it is the vector of that text. -/
structure Converged (s : State Vec) : Prop where
  generated_iff : (∃ record vector, s.index = some record ∧ record.content = .generated vector) ↔
    ∃ state, s.current = some state ∧ textOf c state ≠ ""
  vector_eq : ∀ record vector, s.index = some record → record.content = .generated vector →
    ∃ state, s.current = some state ∧ vector = c.embed (textOf c state)

/-- A worker that has found no text, and deletes the record next. -/
def Worker.deletes (w : Worker Vec) : Bool :=
  match w.phase with
  | .taken => getSourceText c w.source = ""
  | _ => false

/-- **The condition on the steps**: a worker that finds no text deletes no record of a newer
revision, and hop 1 does not lose the race for the key three times in a row. -/
def careful (s : State Vec) : Event → Bool
  | .work i => (s.workers.lookup i).all fun w =>
    !w.deletes c || s.index.all fun record => record.sourceRevision ≤ w.revision
  | .advance =>
    match s.hop1 with
    | .writing _ _ attempt seen => s.unmoved seen || attempt + 1 < maxCASRetries
    | _ => true
  | _ => true

end SemStreams.GraphEmbedding
