import Mathlib.Data.List.Sort
import SemStreams.Lib.Run
import SemStreams.Lib.Slots
import SemStreams.Lib.Window
/-!
# graphview — one projection, many subscribers

A view keeps a projection of a bucket from one watcher. A subscriber takes
a snapshot of it and from then on receives deltas. Changes pass two
coalescing windows: the view's, which a tick fans out to the subscribers,
and the subscriber's own, which it takes in batches. Both keep the last
change of a key. The view stamps each change with its apply sequence, and
the fan-out leaves out what a subscriber's snapshot already covers.

`snapshot_coherent` says that nothing is missed and nothing repeated: at
every point a subscriber's snapshot, overlaid with what it took, what it
has queued and what the view still holds back for it, is the projection.
-/

namespace SemStreams.GraphView

open List Function

/-- `PoisonError`: a write that did not decode. -/
structure PoisonError where
  key : String
  revision : ℕ
  err : String
deriving DecidableEq

structure EntryState (T : Type*) where
  value : T
  revision : ℕ
deriving DecidableEq

/-- The operation of a delta with what it carries. -/
inductive DeltaOp (T : Type*)
  | upsert (value : T)
  | delete
  | poison (err : PoisonError)
deriving DecidableEq

structure Delta (T : Type*) where
  op : DeltaOp T
  key : String
  revision : ℕ
  created : ℕ
deriving DecidableEq

open Delta

/-- `pendingOp`: a change awaiting the next tick, with the apply sequence
of the view. -/
structure PendingOp (T : Type*) where
  delta : Delta T
  seq : ℕ
deriving DecidableEq

/-- The key a buffered change is coalesced under. -/
def PendingOp.key {T : Type*} (op : PendingOp T) : String := op.delta.key

/-- The snapshot `SnapshotAndSubscribe` returns. -/
structure Snapshot (T : Type*) where
  entries : String → Option (EntryState T)
  poisoned : String → Option PoisonError
  sequence : ℕ
  revision : ℕ
  appliedAt : ℕ

/-- A registered subscription, with what its holder has received: the
snapshot (none for a delta-only attach) and the deltas, in order. -/
structure Subscription (T : Type*) where
  attachSeq : ℕ
  pending : Window (key (T := T))
  snapshot : Option (Snapshot T)
  delivered : List (Delta T)

inductive ViewState
  | new
  | bootstrap
  | live
  | failed
  | stopped
deriving DecidableEq

structure View (T : Type*) where
  state : ViewState
  entries : String → Option (EntryState T)
  poisoned : String → Option PoisonError
  pending : Window (PendingOp.key (T := T))
  seq : ℕ
  appliedRev : ℕ
  appliedAt : ℕ
  subs : ℕ → Option (Subscription T)
  nextSubID : ℕ
  /-- the keys delivered during the bootstrap replay; `none` once live -/
  seen : Option (List String)

/-- The view `New` constructs. -/
def View.new {T : Type*} : View T where
  state := .new
  entries := fun _ => none
  poisoned := fun _ => none
  pending := .empty
  seq := 0
  appliedRev := 0
  appliedAt := 0
  subs := fun _ => none
  nextSubID := 0
  seen := some []

/-- What the injected decode says of a value: it is kept, it is not part
of the view, or it does not decode. -/
inductive Decoded (T : Type*)
  | kept (value : T)
  | skipped
  | failed (err : String)

/-- An entry the watch delivers; `none` is the value of a delete or a
purge. -/
structure KVEntry (B : Type*) where
  key : String
  value : Option B
  revision : ℕ
  created : ℕ

variable {T B : Type*}

/-- The watermark and its time advance together. -/
def View.advance (v : View T) (revision created : ℕ) : View T :=
  let v := { v with seq := v.seq + 1 }
  if v.appliedRev < revision then { v with appliedRev := revision, appliedAt := created } else v

def View.apply (v : View T) (d : Delta T) : View T :=
  let v := v.advance d.revision d.created
  let v := match d.op with
    | .upsert value =>
      { v with
        entries := update v.entries d.key (some ⟨value, d.revision⟩)
        poisoned := update v.poisoned d.key none }
    | .delete =>
      { v with
        entries := update v.entries d.key none
        poisoned := update v.poisoned d.key none }
    | .poison err =>
      { v with
        entries := update v.entries d.key none
        poisoned := update v.poisoned d.key (some err) }
  let v := { v with seen := v.seen.map (d.key :: ·) }
  if v.state = .live then { v with pending := v.pending.put ⟨d, v.seq⟩ } else v

/-- `applySkip`: the key is not part of the view. -/
def View.applySkip (v : View T) (key : String) (revision created : ℕ) : View T :=
  let v := v.advance revision created
  if v.entries key = none ∧ v.poisoned key = none then v
  else
    let v := { v with
      entries := update v.entries key none
      poisoned := update v.poisoned key none }
    if v.state = .live then
      { v with pending := v.pending.put ⟨⟨.delete, key, revision, created⟩, v.seq⟩ }
    else v

/-- `processEntry`: a delivered entry is decoded once and applied. -/
def View.processEntry (decode : String → B → ℕ → ℕ → Decoded T) (v : View T) (e : KVEntry B) :
    View T :=
  match e.value with
  | none => v.apply ⟨.delete, e.key, e.revision, e.created⟩
  | some value =>
    match decode e.key value e.revision e.created with
    | .failed err => v.apply ⟨.poison ⟨e.key, e.revision, err⟩, e.key, e.revision, e.created⟩
    | .skipped => v.applySkip e.key e.revision e.created
    | .kept value => v.apply ⟨.upsert value, e.key, e.revision, e.created⟩

/-- `markCaughtUp`: keys the replay did not deliver are removed, and the
view is live. -/
def View.markCaughtUp (v : View T) : View T :=
  if v.state ≠ .bootstrap then { v with seen := none }
  else
    let delivered := v.seen.getD []
    { v with
      entries := fun k => if k ∈ delivered then v.entries k else none
      poisoned := fun k => if k ∈ delivered then v.poisoned k else none
      state := .live
      seen := none }

def View.failClosed (v : View T) : View T :=
  if v.state = .stopped ∨ v.state = .failed then v
  else { v with state := .failed, pending := .empty, subs := fun _ => none }

def View.stop (v : View T) : View T :=
  if v.state = .stopped then v
  else { v with state := .stopped, pending := .empty, subs := fun _ => none }

/-- `attachLocked`, with the snapshot captured in the same critical
section. -/
def View.attach (v : View T) (snapshot : Option (Snapshot T)) : View T :=
  { v with
    subs := update v.subs v.nextSubID (some ⟨v.seq, .empty, snapshot, []⟩)
    nextSubID := v.nextSubID + 1 }

def View.capture (v : View T) : Snapshot T :=
  ⟨v.entries, v.poisoned, v.seq, v.appliedRev, v.appliedAt⟩

/-- `SnapshotAndSubscribe`; a view that is not live refuses. -/
def View.snapshotAndSubscribe (v : View T) : View T :=
  if v.state = .live then v.attach (some v.capture) else v

def View.subscribe (v : View T) : View T := if v.state = .live then v.attach none else v

/-- `enqueueLocked`: the window the view detached, as far as the snapshot
does not cover it, goes into the subscriber's own. -/
def Subscription.enqueue (s : Subscription T) (ops : List (PendingOp T)) : Subscription T :=
  { s with
    pending := s.pending.putAll
      ((ops.filter fun op => !decide (op.seq ≤ s.attachSeq)).map PendingOp.delta) }

def View.fanOut (v : View T) : View T :=
  if v.state ≠ .live then v
  else
    { v with
      pending := .empty
      subs := fun id => (v.subs id).map fun s => s.enqueue v.pending.items }

/-- `take`: the pending window, sorted by revision, is delivered. -/
def Subscription.take (s : Subscription T) : Subscription T :=
  { s with
    delivered := s.delivered ++ s.pending.items.insertionSort fun d d' => d.revision ≤ d'.revision
    pending := .empty }

/-- The steps of the view, its watcher and its subscribers, each one
critical section. -/
inductive ViewEvent (B : Type*)
  | start
  | openFailed
  | entry (e : KVEntry B)
  | endOfReplay
  | watcherLost
  | stop
  | tick
  | snapshotAndSubscribe
  | subscribe
  | take (id : ℕ)
  | detach (id : ℕ)

/-- One step. The watch delivers entries in ascending revision order, and
none to a view that is not started or has lost it. -/
def viewStep (decode : String → B → ℕ → ℕ → Decoded T) (v : View T) : ViewEvent B → Option (View T)
  | .start => if v.state = .new then some { v with state := .bootstrap } else none
  | .openFailed => if v.state = .bootstrap then some { v with state := .failed } else none
  | .entry e =>
    if v.state ≠ .new ∧ v.state ≠ .failed ∧ v.appliedRev < e.revision then
      some (v.processEntry decode e)
    else none
  | .endOfReplay => if v.state ≠ .new ∧ v.state ≠ .failed then some v.markCaughtUp else none
  | .watcherLost => some v.failClosed
  | .stop => some v.stop
  | .tick => some v.fanOut
  | .snapshotAndSubscribe => some v.snapshotAndSubscribe
  | .subscribe => some v.subscribe
  | .take id => (v.subs id).map fun s => { v with subs := update v.subs id (some s.take) }
  | .detach id => some { v with subs := update v.subs id none }

/-! ## The projection and what a subscriber sees of it -/

/-- What a key holds: a value, a poison record, or neither. -/
abbrev Cell (T : Type*) := Option (EntryState T) × Option PoisonError

def View.cell (v : View T) (k : String) : Cell T := (v.entries k, v.poisoned k)

def Snapshot.cell (snap : Snapshot T) (k : String) : Cell T := (snap.entries k, snap.poisoned k)

def Cell.revision (c : Cell T) : Option ℕ :=
  c.1.map EntryState.revision <|> c.2.map PoisonError.revision

/-- What a delta leaves at its key. -/
def Delta.cell (d : Delta T) : Cell T :=
  match d.op with
  | .upsert value => (some ⟨value, d.revision⟩, none)
  | .delete => (none, none)
  | .poison err => (none, some err)

/-- Deltas laid over a projection. -/
def overlaid (f : String → Cell T) (deltas : List (Delta T)) : String → Cell T :=
  overlay key cell f deltas

/-- The changes the view still holds back for a subscriber. -/
def View.pendingAfter (v : View T) (attachSeq : ℕ) : List (Delta T) :=
  (v.pending.items.filter fun op => !decide (op.seq ≤ attachSeq)).map PendingOp.delta

/-- The snapshot with what its holder took and has queued laid over it. -/
def Subscription.reached (s : Subscription T) (snap : Snapshot T) : String → Cell T :=
  overlaid (overlaid snap.cell s.delivered) s.pending.items

/-- A revision of a key the holder has seen, in the snapshot or in a
delta. -/
def Subscription.Known (s : Subscription T) (k : String) (r : ℕ) : Prop :=
  (∃ snap, s.snapshot = some snap ∧ Cell.revision (snap.cell k) = some r) ∨
    ∃ d ∈ s.delivered, d.key = k ∧ d.revision = r

/-- What holds between the view and one subscription: where the view holds
nothing back at a key, the subscriber has reached the projection there; and
revisions of a key rise from what is known over what is queued to what is
held back. -/
structure Attached (v : View T) (s : Subscription T) : Prop where
  attach_le : s.attachSeq ≤ v.seq
  settled : ∀ snap, s.snapshot = some snap → ∀ k,
    (∀ op ∈ v.pending.items, op.key = k → op.seq ≤ s.attachSeq) → s.reached snap k = v.cell k
  known_le : ∀ k r, s.Known k r → r ≤ v.appliedRev
  queued_le : ∀ d ∈ s.pending.items, d.revision ≤ v.appliedRev
  known_lt_queued : ∀ d ∈ s.pending.items, ∀ r, s.Known d.key r → r < d.revision
  known_lt_held : ∀ op ∈ v.pending.items, s.attachSeq < op.seq →
    ∀ r, s.Known op.key r → r < op.delta.revision
  queued_lt_held : ∀ op ∈ v.pending.items, s.attachSeq < op.seq →
    ∀ d ∈ s.pending.items, d.key = op.key → d.revision < op.delta.revision
  delivered_lt : s.delivered.Pairwise fun d d' => d.key = d'.key → d.revision < d'.revision
  snapshot_lt : ∀ snap, s.snapshot = some snap → ∀ d ∈ s.delivered,
    ∀ r, Cell.revision (snap.cell d.key) = some r → r < d.revision

/-- The invariant of a view. -/
structure Coherent (v : View T) : Prop where
  idle : v.state ≠ .live → v.pending.items = [] ∧ ∀ id, v.subs id = none
  held_cell : ∀ op ∈ v.pending.items, v.cell op.key = op.delta.cell
  held_seq : ∀ op ∈ v.pending.items, op.seq ≤ v.seq
  held_le : ∀ op ∈ v.pending.items, op.delta.revision ≤ v.appliedRev
  cell_le : ∀ k r, Cell.revision (v.cell k) = some r → r ≤ v.appliedRev
  attached : ∀ id s, v.subs id = some s → Attached v s

/-! ## A change of the projection -/

/-- **What an applied entry does**: the cell of its key changes, and a live
view holds the change back for the next tick. -/
structure Changed (v : View T) (d : Delta T) (v' : View T) : Prop where
  newer : v.appliedRev < d.revision
  carries : ∀ r, Cell.revision d.cell = some r → r ≤ d.revision
  state_eq : v'.state = v.state
  subs_eq : v'.subs = v.subs
  seq_eq : v'.seq = v.seq + 1
  rev_eq : v'.appliedRev = d.revision
  cell_self : v'.cell d.key = d.cell
  cell_other : ∀ k, k ≠ d.key → v'.cell k = v.cell k
  pending_eq : v'.pending = if v.state = .live then v.pending.put ⟨d, v.seq + 1⟩ else v.pending

variable {v v' : View T} {d : Delta T} {s : Subscription T}

theorem advance_eq {revision created : ℕ} (h : v.appliedRev < revision) :
    v.advance revision created =
      { v with seq := v.seq + 1, appliedRev := revision, appliedAt := created } := by
  unfold View.advance
  rw [if_pos h]

theorem apply_changed (h : v.appliedRev < d.revision)
    (hcarries : ∀ r, Cell.revision d.cell = some r → r ≤ d.revision) :
    Changed v d (v.apply d) := by
  unfold View.apply
  rw [advance_eq h]
  by_cases hlive : v.state = .live <;> cases hd : d.op <;>
    exact
      { newer := h, carries := hcarries
        state_eq := by simp [hlive], subs_eq := by simp [hlive], seq_eq := by simp [hlive]
        rev_eq := by simp [hlive], cell_self := by simp [hlive, View.cell, cell, hd]
        cell_other := fun k hk => by simp [hlive, View.cell, update_of_ne hk]
        pending_eq := by simp [hlive] }

theorem Changed.mem_pending (h : Changed v d v') {op : PendingOp T} (hop : op ∈ v'.pending.items) :
    (op = ⟨d, v.seq + 1⟩) ∨ (op ∈ v.pending.items ∧ (v.state = .live → op.key ≠ d.key)) := by
  rw [h.pending_eq] at hop
  split at hop
  · rcases Window.mem_put.1 hop with rfl | ⟨hop, hne⟩
    · exact .inl rfl
    · exact .inr ⟨hop, fun _ => hne⟩
  · rename_i hlive
    exact .inr ⟨hop, fun h => absurd h hlive⟩

theorem Attached.changed (hs : Attached v s) (hlive : v.state = .live) (h : Changed v d v') :
    Attached v' s := by
  have hnewer := h.newer
  have hrev := h.rev_eq
  have hpending : v'.pending = v.pending.put ⟨d, v.seq + 1⟩ := by rw [h.pending_eq, if_pos hlive]
  refine ⟨?_, fun snap hsnap k hheld => ?_, fun k r hr => ?_, fun d' hd' => ?_,
    hs.known_lt_queued, fun op hop hseq r hr => ?_, fun op hop hseq d' hd' hk => ?_,
    hs.delivered_lt, hs.snapshot_lt⟩
  · have := hs.attach_le
    rw [h.seq_eq]
    omega
  · -- the changed key is held back, so it is another one
    have hself : (⟨d, v.seq + 1⟩ : PendingOp T) ∈ v'.pending.items := by
      rw [hpending, Window.mem_put]
      exact .inl rfl
    have hk : k ≠ d.key := by
      rintro rfl
      have hle : v.seq + 1 ≤ s.attachSeq := hheld _ hself rfl
      have := hs.attach_le
      omega
    rw [h.cell_other k hk]
    refine hs.settled snap hsnap k fun op hop hopk => hheld op ?_ hopk
    rw [hpending, Window.mem_put]
    exact .inr ⟨hop, fun hkey => hk (hopk.symm.trans hkey)⟩
  · have := hs.known_le k r hr
    omega
  · have := hs.queued_le d' hd'
    omega
  · rcases h.mem_pending hop with rfl | ⟨hop, -⟩
    · have := hs.known_le _ r hr
      exact lt_of_le_of_lt this hnewer
    · exact hs.known_lt_held op hop hseq r hr
  · rcases h.mem_pending hop with rfl | ⟨hop, -⟩
    · have := hs.queued_le d' hd'
      exact lt_of_le_of_lt this hnewer
    · exact hs.queued_lt_held op hop hseq d' hd' hk

theorem Coherent.changed (hv : Coherent v) (h : Changed v d v') : Coherent v' := by
  have hnewer := h.newer
  have hrev := h.rev_eq
  refine ⟨fun hstate => ?_, fun op hop => ?_, fun op hop => ?_, fun op hop => ?_,
    fun k r hr => ?_, fun id s hs => ?_⟩
  · have hlive : v.state ≠ .live := h.state_eq ▸ hstate
    rw [h.pending_eq, if_neg hlive, h.subs_eq]
    exact hv.idle hlive
  · rcases h.mem_pending hop with rfl | ⟨hop, hne⟩
    · exact h.cell_self
    by_cases hlive : v.state = .live
    · rw [h.cell_other _ (hne hlive)]
      exact hv.held_cell op hop
    · rw [(hv.idle hlive).1] at hop
      simp at hop
  · rw [h.seq_eq]
    rcases h.mem_pending hop with rfl | ⟨hop, -⟩
    · exact le_refl _
    · have := hv.held_seq op hop
      omega
  · rcases h.mem_pending hop with rfl | ⟨hop, -⟩
    · exact hrev.ge
    · have := hv.held_le op hop
      omega
  · by_cases hk : k = d.key
    · subst hk
      rw [h.cell_self] at hr
      rw [hrev]
      exact h.carries r hr
    · rw [h.cell_other k hk] at hr
      have := hv.cell_le k r hr
      omega
  · by_cases hlive : v.state = .live
    · exact (hv.attached id s (h.subs_eq ▸ hs)).changed hlive h
    · rw [h.subs_eq, (hv.idle hlive).2 id] at hs
      simp at hs

/-- A skipped key the view does not hold moves the watermark only. -/
theorem Coherent.advance (hv : Coherent v) {revision created : ℕ} (h : v.appliedRev < revision) :
    Coherent (v.advance revision created) := by
  rw [advance_eq h]
  refine ⟨hv.idle, hv.held_cell, fun op hop => ?_, fun op hop => ?_, fun k r hr => ?_,
    fun id s hs => ?_⟩
  · have := hv.held_seq op hop
    exact Nat.le_succ_of_le this
  · exact (hv.held_le op hop).trans h.le
  · exact (hv.cell_le k r hr).trans h.le
  · have hatt := hv.attached id s hs
    exact
      { attach_le := Nat.le_succ_of_le hatt.attach_le, settled := hatt.settled
        known_le := fun k r hr => (hatt.known_le k r hr).trans h.le
        queued_le := fun d hd => (hatt.queued_le d hd).trans h.le
        known_lt_queued := hatt.known_lt_queued, known_lt_held := hatt.known_lt_held
        queued_lt_held := hatt.queued_lt_held, delivered_lt := hatt.delivered_lt
        snapshot_lt := hatt.snapshot_lt }

/-- A skipped key the view holds is deleted. -/
theorem applySkip_cases {key : String} {revision created : ℕ} (h : v.appliedRev < revision) :
    v.applySkip key revision created = v.advance revision created ∨
      Changed v ⟨.delete, key, revision, created⟩ (v.applySkip key revision created) := by
  unfold View.applySkip
  simp only [advance_eq h]
  split
  · exact .inl rfl
  refine .inr ?_
  by_cases hlive : v.state = .live <;>
    exact
      { newer := h, carries := by simp [cell, Cell.revision]
        state_eq := by simp [hlive], subs_eq := by simp [hlive], seq_eq := by simp [hlive]
        rev_eq := by simp [hlive], cell_self := by simp [hlive, View.cell, cell]
        cell_other := fun k hk => by
          have hk' : k ≠ key := hk
          simp [hlive, View.cell, update_of_ne hk']
        pending_eq := by simp [hlive] }

theorem Coherent.processEntry (hv : Coherent v) {e : KVEntry B} (h : v.appliedRev < e.revision) :
    Coherent (v.processEntry decode e) := by
  unfold View.processEntry
  split
  · exact hv.changed (apply_changed h (by simp [cell, Cell.revision]))
  split
  · exact hv.changed (apply_changed h (by simp [cell, Cell.revision]))
  · rcases @applySkip_cases T v e.key e.revision e.created h with heq | hchanged
    · rw [heq]
      exact hv.advance h
    · exact hv.changed hchanged
  · exact hv.changed (apply_changed h (by simp [cell, Cell.revision]))

/-! ## Attach, fan-out and take -/

/-- A subscription taken now has reached the projection. -/
theorem Coherent.attach (hv : Coherent v) (hlive : v.state = .live)
    (hsnap : ∀ snap, snapshot = some snap → snap = v.capture) : Coherent (v.attach snapshot) := by
  -- nothing the view holds back is newer than the attach
  have hnone : ∀ op ∈ v.pending.items, ¬ v.seq < op.seq := by
    intro op hop
    have := hv.held_seq op hop
    omega
  refine { hv with idle := fun h => absurd hlive h, attached := ?_ }
  refine forall_slot_fill (P := fun _ s => Attached (v.attach snapshot) s) ?_
    (fun id s hs => ?_)
  · exact
      { attach_le := le_refl _
        settled := fun snap hs k _ => by
          rw [hsnap snap hs]
          rfl
        known_le := fun k r hr => by
          rcases hr with ⟨snap, hs, hr⟩ | ⟨d, hd, -⟩
          · rw [hsnap snap hs] at hr
            exact hv.cell_le k r hr
          · simp at hd
        queued_le := fun d hd => by simp at hd
        known_lt_queued := fun d hd => by simp at hd
        known_lt_held := fun op hop hseq => absurd hseq (hnone op hop)
        queued_lt_held := fun op hop hseq => absurd hseq (hnone op hop)
        delivered_lt := List.Pairwise.nil
        snapshot_lt := fun snap _ d hd => by simp at hd }
  · exact { hv.attached id s hs with }

theorem mem_enqueue {ops : Window (PendingOp.key (T := T))} :
    d ∈ (s.enqueue ops.items).pending.items ↔
      (∃ op ∈ ops.items, s.attachSeq < op.seq ∧ op.delta = d) ∨
      (d ∈ s.pending.items ∧ ∀ op ∈ ops.items, s.attachSeq < op.seq → d.key ≠ op.key) := by
  have hnodup : (((ops.items.filter fun op => !decide (op.seq ≤ s.attachSeq)).map
      PendingOp.delta).map key).Nodup := by
    rw [List.map_map]
    exact ops.nodup.sublist (filter_sublist.map _)
  have hmem : ∀ d', d' ∈ (ops.items.filter fun op => !decide (op.seq ≤ s.attachSeq)).map
      PendingOp.delta ↔ ∃ op ∈ ops.items, s.attachSeq < op.seq ∧ op.delta = d' := by
    simp [and_assoc]
  unfold Subscription.enqueue
  rw [Window.mem_putAll hnodup]
  simp only [hmem]
  constructor
  · rintro (h | ⟨h, hall⟩)
    · exact .inl h
    · exact .inr ⟨h, fun op hop hseq => hall op.delta ⟨op, hop, hseq, rfl⟩⟩
  · rintro (h | ⟨h, hall⟩)
    · exact .inl h
    · refine .inr ⟨h, ?_⟩
      rintro _ ⟨op, hop, hseq, rfl⟩
      exact hall op hop hseq

variable {snap : Snapshot T} {k : String}

theorem reached_of_queued (hd : d ∈ s.pending.items) : s.reached snap d.key = d.cell :=
  overlay_of_mem s.pending.nodup hd

theorem reached_of_not_queued (h : ∀ d ∈ s.pending.items, d.key ≠ k) :
    s.reached snap k = overlaid snap.cell s.delivered k :=
  overlay_of_not_mem h

theorem fanOut_eq (hlive : v.state = .live) : v.fanOut = { v with
      pending := .empty, subs := fun id => (v.subs id).map fun s => s.enqueue v.pending.items } := by
  unfold View.fanOut
  rw [if_neg (by simp [hlive])]

theorem Attached.fanOut (hs : Attached v s) (hv : Coherent v) (hlive : v.state = .live) :
    Attached v.fanOut (s.enqueue v.pending.items) := by
  have hfan := fanOut_eq hlive
  have hempty : v.fanOut.pending.items = [] := by rw [hfan]; rfl
  have hcell : ∀ k, v.fanOut.cell k = v.cell k := fun k => by rw [hfan]; rfl
  have hrev : v.fanOut.appliedRev = v.appliedRev := by rw [hfan]
  refine ⟨by rw [hfan]; exact hs.attach_le, fun snap hsnap k _ => ?_, fun k r hr => ?_,
    fun d hd => ?_, fun d hd r hr => ?_, by simp [hempty], by simp [hempty],
    hs.delivered_lt, hs.snapshot_lt⟩
  · rw [hcell]
    by_cases hheld : ∃ op ∈ v.pending.items, s.attachSeq < op.seq ∧ op.key = k
    · -- the key's change moves from the view to the subscriber
      obtain ⟨op, hop, hseq, rfl⟩ := hheld
      rw [hv.held_cell op hop]
      exact reached_of_queued (mem_enqueue.2 (.inl ⟨op, hop, hseq, rfl⟩))
    · have hcovered : ∀ op ∈ v.pending.items, op.key = k → op.seq ≤ s.attachSeq := by
        intro op hop hk
        by_contra hlt
        exact hheld ⟨op, hop, by omega, hk⟩
      rw [← hs.settled snap hsnap k hcovered]
      -- and the subscriber's own window is as it was there
      by_cases hown : ∃ d ∈ s.pending.items, d.key = k
      · obtain ⟨d, hd, rfl⟩ := hown
        rw [reached_of_queued hd]
        refine reached_of_queued (mem_enqueue.2 (.inr ⟨hd, fun op hop hseq hk => ?_⟩))
        exact hheld ⟨op, hop, hseq, hk.symm⟩
      · rw [reached_of_not_queued fun d hd hk => hown ⟨d, hd, hk⟩, reached_of_not_queued]
        · rfl
        intro d hd hk
        rcases mem_enqueue.1 hd with ⟨op, hop, hseq, rfl⟩ | ⟨hd, -⟩
        · exact hheld ⟨op, hop, hseq, hk⟩
        · exact hown ⟨d, hd, hk⟩
  · rw [hrev]
    exact hs.known_le k r hr
  · rw [hrev]
    rcases mem_enqueue.1 hd with ⟨op, hop, -, rfl⟩ | ⟨hd, -⟩
    · exact hv.held_le op hop
    · exact hs.queued_le d hd
  · rcases mem_enqueue.1 hd with ⟨op, hop, hseq, rfl⟩ | ⟨hd, -⟩
    · exact hs.known_lt_held op hop hseq r hr
    · exact hs.known_lt_queued d hd r hr

theorem Coherent.fanOut (hv : Coherent v) : Coherent v.fanOut := by
  by_cases hlive : v.state = .live
  · have hatt : ∀ id s, v.subs id = some s → Attached v.fanOut (s.enqueue v.pending.items) :=
      fun id s hs => (hv.attached id s hs).fanOut hv hlive
    rw [fanOut_eq hlive] at hatt ⊢
    refine ⟨fun h => absurd hlive h, by simp, by simp, by simp, hv.cell_le, fun id s' hs' => ?_⟩
    obtain ⟨s, hs, rfl⟩ := Option.map_eq_some_iff.1 hs'
    exact hatt id s hs
  · unfold View.fanOut
    rw [if_pos hlive]
    exact hv

/-- Taking a batch moves the queue behind the delivered deltas. -/
theorem reached_take : s.take.reached snap k = s.reached snap k := by
  have hperm := s.pending.items.perm_insertionSort fun d d' => d.revision ≤ d'.revision
  have htake : s.take.reached snap k = overlaid (overlaid snap.cell s.delivered)
      (s.pending.items.insertionSort fun d d' => d.revision ≤ d'.revision) k := by
    unfold Subscription.reached Subscription.take overlaid
    rw [overlay_append]
    rfl
  rw [htake]
  by_cases hown : ∃ d ∈ s.pending.items, d.key = k
  · obtain ⟨d, hd, rfl⟩ := hown
    rw [reached_of_queued hd]
    exact overlay_of_mem ((hperm.map key).nodup_iff.2 s.pending.nodup) (hperm.mem_iff.2 hd)
  · rw [reached_of_not_queued fun d hd hk => hown ⟨d, hd, hk⟩]
    exact overlay_of_not_mem fun d hd hk => hown ⟨d, hperm.mem_iff.1 hd, hk⟩

theorem known_take :
    s.take.Known k r ↔ s.Known k r ∨ ∃ d ∈ s.pending.items, d.key = k ∧ d.revision = r := by
  unfold Subscription.Known Subscription.take
  simp only [mem_append, mem_insertionSort, or_and_right, exists_or, or_assoc]

theorem Attached.take (hs : Attached v s) : Attached v s.take := by
  have hempty : s.take.pending.items = [] := rfl
  refine ⟨hs.attach_le, fun snap hsnap k hheld => ?_, fun k r hr => ?_, by simp [hempty],
    by simp [hempty], fun op hop hseq r hr => ?_, by simp [hempty], ?_,
    fun snap hsnap d hd r hr => ?_⟩
  · rw [reached_take]
    exact hs.settled snap hsnap k hheld
  · rcases known_take.1 hr with hr | ⟨d, hd, -, rfl⟩
    · exact hs.known_le k r hr
    · exact hs.queued_le d hd
  · rcases known_take.1 hr with hr | ⟨d, hd, hk, rfl⟩
    · exact hs.known_lt_held op hop hseq r hr
    · exact hs.queued_lt_held op hop hseq d hd hk
  · refine pairwise_append.2 ⟨hs.delivered_lt, ?_, fun d hd d' hd' hk => ?_⟩
    · -- one delta per key in a batch
      have hnodup : ((s.pending.items.insertionSort fun d d' => d.revision ≤ d'.revision).map
          key).Nodup :=
        ((perm_insertionSort _ _).map key).nodup_iff.2 s.pending.nodup
      exact (pairwise_map.1 hnodup).imp fun hne hk => absurd hk hne
    · have hd' : d' ∈ s.pending.items := (mem_insertionSort _).1 hd'
      exact hs.known_lt_queued d' hd' _ (.inr ⟨d, hd, hk, rfl⟩)
  · rcases mem_append.1 hd with hd | hd
    · exact hs.snapshot_lt snap hsnap d hd r hr
    · have hd : d ∈ s.pending.items := (mem_insertionSort _).1 hd
      exact hs.known_lt_queued d hd r (.inl ⟨snap, hsnap, hr⟩)

/-! ## Whole runs -/

/-- A view without subscribers and without held changes has nothing to keep
but the bound on its revisions. -/
theorem coherent_of_idle (hpending : v.pending.items = []) (hsubs : ∀ id, v.subs id = none)
    (hcell : ∀ k r, Cell.revision (v.cell k) = some r → r ≤ v.appliedRev) : Coherent v := by
  refine ⟨fun _ => ⟨hpending, hsubs⟩, by simp [hpending], by simp [hpending], by simp [hpending],
    hcell, fun id s hs => ?_⟩
  rw [hsubs id] at hs
  simp at hs

theorem coherent_new : Coherent (View.new : View T) :=
  coherent_of_idle rfl (fun _ => rfl) (by simp [View.new, View.cell, Cell.revision])

theorem Coherent.markCaughtUp (hv : Coherent v) : Coherent v.markCaughtUp := by
  unfold View.markCaughtUp
  split
  · exact { hv with attached := fun id s hs => { hv.attached id s hs with } }
  · rename_i hboot
    have hstate : v.state = .bootstrap := by simpa using hboot
    obtain ⟨hpending, hsubs⟩ := hv.idle (by simp [hstate])
    refine coherent_of_idle hpending hsubs fun k r hr => hv.cell_le k r ?_
    -- a key the replay delivered keeps its cell, any other has none
    unfold View.cell at hr ⊢
    simp only at hr
    split at hr
    · exact hr
    · simp [Cell.revision] at hr

theorem Coherent.close (hv : Coherent v) :
    Coherent { v with state, pending := .empty, subs := fun _ => none } :=
  coherent_of_idle rfl (fun _ => rfl) hv.cell_le

theorem viewStep_coherent {e : ViewEvent B} (hv : Coherent v) (h : viewStep decode v e = some v') :
    Coherent v' := by
  cases e with
  | start | openFailed =>
    obtain ⟨hstate, ⟨⟩⟩ := Option.ite_none_right_eq_some.1 h
    obtain ⟨hpending, hsubs⟩ := hv.idle (by simp [hstate])
    exact coherent_of_idle hpending hsubs hv.cell_le
  | entry e =>
    obtain ⟨⟨-, -, hnewer⟩, ⟨⟩⟩ := Option.ite_none_right_eq_some.1 h
    exact hv.processEntry hnewer
  | endOfReplay =>
    obtain ⟨-, ⟨⟩⟩ := Option.ite_none_right_eq_some.1 h
    exact hv.markCaughtUp
  | watcherLost =>
    obtain rfl : v.failClosed = v' := Option.some.inj h
    unfold View.failClosed
    split
    · exact hv
    · exact hv.close
  | stop =>
    obtain rfl : v.stop = v' := Option.some.inj h
    unfold View.stop
    split
    · exact hv
    · exact hv.close
  | tick =>
    obtain rfl : v.fanOut = v' := Option.some.inj h
    exact hv.fanOut
  | snapshotAndSubscribe =>
    obtain rfl : v.snapshotAndSubscribe = v' := Option.some.inj h
    unfold View.snapshotAndSubscribe
    split
    · rename_i hlive
      exact hv.attach hlive fun snap hs => (Option.some.inj hs).symm
    · exact hv
  | subscribe =>
    obtain rfl : v.subscribe = v' := Option.some.inj h
    unfold View.subscribe
    split
    · rename_i hlive
      exact hv.attach hlive fun snap hs => by simp at hs
    · exact hv
  | take id =>
    obtain ⟨s, hs, rfl⟩ := Option.map_eq_some_iff.1 h
    refine { hv with idle := fun hlive => ?_, attached := ?_ }
    · rw [(hv.idle hlive).2 id] at hs
      simp at hs
    · exact forall_slot_fill (P := fun _ s' => Attached
        { v with subs := update v.subs id (some s.take) } s')
        { (hv.attached id s hs).take with }
        (fun j s' hs' => { hv.attached j s' hs' with })
  | detach id =>
    obtain rfl : { v with subs := update v.subs id none } = v' := Option.some.inj h
    refine { hv with idle := fun hlive => ⟨(hv.idle hlive).1, fun j => ?_⟩, attached := ?_ }
    · exact (forall_update_iff v.subs fun _ s => s = none).2
        ⟨rfl, fun j _ => (hv.idle hlive).2 j⟩ j
    · exact forall_slot_free (P := fun _ s' => Attached { v with subs := update v.subs id none } s')
        (fun j s' hs' => { hv.attached j s' hs' with })

theorem mem_pendingAfter :
    d ∈ v.pendingAfter attachSeq ↔ ∃ op ∈ v.pending.items, attachSeq < op.seq ∧ op.delta = d := by
  unfold View.pendingAfter
  simp [and_assoc]

/-- What the view holds back, laid over what a subscriber has reached, is
the projection. -/
theorem Coherent.overlaid_pendingAfter (hv : Coherent v) (hs : Attached v s)
    (hsnap : s.snapshot = some snap) (k : String) :
    overlaid (s.reached snap) (v.pendingAfter s.attachSeq) k = v.cell k := by
  by_cases hheld : ∃ op ∈ v.pending.items, s.attachSeq < op.seq ∧ op.key = k
  · obtain ⟨op, hop, hseq, rfl⟩ := hheld
    have hnodup : ((v.pendingAfter s.attachSeq).map key).Nodup := by
      unfold View.pendingAfter
      rw [List.map_map]
      exact v.pending.nodup.sublist (filter_sublist.map _)
    rw [hv.held_cell op hop]
    exact overlay_of_mem hnodup (mem_pendingAfter.2 ⟨op, hop, hseq, rfl⟩)
  · have hnone : ∀ d ∈ v.pendingAfter s.attachSeq, d.key ≠ k := by
      intro d hd hk
      obtain ⟨op, hop, hseq, rfl⟩ := mem_pendingAfter.1 hd
      exact hheld ⟨op, hop, hseq, hk⟩
    have hlaid : overlaid (s.reached snap) (v.pendingAfter s.attachSeq) k = s.reached snap k :=
      overlay_of_not_mem hnone
    rw [hlaid]
    refine hs.settled snap hsnap k fun op hop hk => ?_
    by_contra hlt
    exact hheld ⟨op, hop, by omega, hk⟩

/-- **Snapshot and deltas are coherent.** In every run and for every
subscriber, its snapshot overlaid in order with the deltas delivered to it,
its own queue and the changes the view holds back for it is the current
projection; and the deltas delivered for a key carry strictly rising
revisions, all past the one the snapshot has there. -/
theorem snapshot_coherent {decode : String → B → ℕ → ℕ → Decoded T} {es : List (ViewEvent B)}
    (hrun : run (viewStep decode) View.new es = some v) {id : ℕ} (hsub : v.subs id = some s)
    (hsnap : s.snapshot = some snap) :
    (∀ k, overlaid (overlaid (overlaid snap.cell s.delivered) s.pending.items)
      (v.pendingAfter s.attachSeq) k = v.cell k) ∧
    (s.delivered.Pairwise fun d d' => d.key = d'.key → d.revision < d'.revision) ∧
    ∀ d ∈ s.delivered, ∀ r, Cell.revision (snap.cell d.key) = some r → r < d.revision := by
  have hv : Coherent v :=
    run_invariant (fun v e v' hv hstep => viewStep_coherent hv hstep) coherent_new hrun
  have hs := hv.attached id s hsub
  exact ⟨hv.overlaid_pendingAfter hs hsnap, hs.delivered_lt, hs.snapshot_lt snap hsnap⟩

/-- A subscriber attached at revision 1 of a key that has taken revision 2
of it, with a second key held back for it. -/
theorem snapshot_coherent_after_take : ∃ (v : View ℕ) (s : Subscription ℕ) (snap : Snapshot ℕ),
      run (viewStep fun _ (raw : ℕ) _ _ => .kept raw) View.new
        [.start, .entry ⟨"a", some 10, 1, 0⟩, .endOfReplay, .snapshotAndSubscribe,
          .entry ⟨"a", some 20, 2, 0⟩, .tick, .take 0, .entry ⟨"b", some 30, 3, 0⟩] = some v ∧
      s.delivered.map revision = [2] ∧
      ∀ k, overlaid (overlaid (overlaid snap.cell s.delivered) s.pending.items)
        (v.pendingAfter s.attachSeq) k = v.cell k := by
  refine' ⟨_, _, _, ?run, ?delivered, (snapshot_coherent ?run ?sub ?snap).1⟩
  case run => rfl
  case sub => exact (rfl : View.subs _ 0 = _)
  case snap => rfl
  case delivered => rfl

end SemStreams.GraphView
