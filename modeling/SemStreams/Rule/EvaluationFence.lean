import SemStreams.Graph.Entity
/-!
# Rules — the entity evaluation fence

Several watchers and the coalescer may present the same entity. The fence keeps
one entry per entity and admits a snapshot once: a revision only above the ones
admitted before, a deletion without a revision once until the entity is seen
again. Only the admission is under the entry's lock; what follows is not.
-/

namespace SemStreams.Rule

open SemStreams.Graph

inductive SnapshotAction
  | created
  | updated
  | deleted
  deriving DecidableEq

/-- `entitySnapshot`. The revision is 0 only where a current-state fetch found
the key gone. -/
structure EntitySnapshot where
  state : Option EntityState
  action : SnapshotAction
  revision : ℕ

/-- `entityEvaluationFenceEntry`, the idle bookkeeping apart. -/
structure FenceEntry where
  refs : ℕ := 0
  latestRevision : ℕ := 0
  zeroDeleteProcessed : Bool := false

def FenceEntry.admits (e : FenceEntry) (snap : EntitySnapshot) : Bool :=
  if snap.revision > 0 then decide (e.latestRevision < snap.revision)
  else decide (snap.action ≠ .deleted) || !e.zeroDeleteProcessed

def FenceEntry.record (e : FenceEntry) (snap : EntitySnapshot) : FenceEntry :=
  { e with
    latestRevision := if snap.revision > e.latestRevision then snap.revision else e.latestRevision
    zeroDeleteProcessed :=
      if snap.action = .deleted then true
      else if snap.revision > 0 then false
      else e.zeroDeleteProcessed }

def FenceEntry.retain (e : FenceEntry) : FenceEntry := { e with refs := e.refs + 1 }

def FenceEntry.release (e : FenceEntry) : FenceEntry := { e with refs := e.refs - 1 }

end SemStreams.Rule
