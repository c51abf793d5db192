import SemStreams.Graph.Contract
import SemStreams.Lib.Run
import SemStreams.Lib.Slots
import SemStreams.Lib.Snapshot
import SemStreams.Lib.Window
/-!
# graph-ingest — the poison inventory

A stored value that fails the canonical decode is poison. Detections (boot
sweep, queries, read-modify-write failures) put a record with the failing
revision into an inventory, and deletes, commits and validating reads take it
out. Detection, record, re-read and drop are separate steps of one operation,
and operations of any number interleave between them.

What keeps a stale record from staying behind: as long as a record stands for a
key that is valid or gone, some operation is still on its way to drop it.
`Pc.Clears` says which ones are.
-/

namespace SemStreams.GraphIngest

open SemStreams.Graph KeyedLog List Function Option

/-! ## The decoder -/

/-- `graph.StateResetReason`. -/
inductive StateResetReason
  | unreadableEntity
  | noncanonicalPredicate
  | noncanonicalEntityID
deriving DecidableEq

/-- `classifyDecodedEntityStateError`: the predicates are validated last. -/
def classifyDecodedEntityStateError (entity : EntityState) : StateResetReason :=
  if isValidEntityID entity.id &&
      entity.triples.all (fun t => t.subject = entity.id || isValidEntityID t.subject) &&
      entity.triples.all Triple.referenceOk then
    .noncanonicalPredicate
  else .noncanonicalEntityID

section Decoder

variable {Bytes : Type*} (parse : Bytes → Option EntityState)

/-- `UnmarshalEntityState` over the JSON decoder `parse`. -/
def unmarshalEntityState (data : Bytes) : Except StateResetReason EntityState :=
  match parse data with
  | none => .error .unreadableEntity
  | some entity =>
    if validateEntityStateContract entity then .ok entity
    else .error (classifyDecodedEntityStateError entity)

/-- The bytes pass the canonical decode. -/
def decodes (data : Bytes) : Bool := (unmarshalEntityState parse data).isOk

/-- The bytes are not a canonical entity of this key: they fail the decode, or
they hold another entity. -/
def invalidFor (key : String) (data : Bytes) : Bool :=
  match unmarshalEntityState parse data with
  | .error _ => true
  | .ok entity => entity.id ≠ key

end Decoder

/-! ## The inventory -/

/-- `entityPoisonRecord` with the entity it is kept under. -/
structure PoisonRecord where
  entityID : String
  reason : StateResetReason
  revision : ℕ
deriving DecidableEq

abbrev Inventory := Window PoisonRecord.entityID

/-- `recordEntityPoison`, and whether the entity is newly inventoried. -/
def recordEntityPoison (inventory : Inventory) (r : PoisonRecord) : Inventory × Bool :=
  if r.entityID = "" then (inventory, false)
  else
    match inventory.lookup r.entityID with
    | some existing =>
      (if r.revision ≥ existing.revision then inventory.put r else inventory, false)
    | none => (inventory.put r, true)

/-- `dropEntityPoisonRecord`; the proof `0` drops whatever is there. -/
def dropEntityPoisonRecord (inventory : Inventory) (entityID : String) (proofRev : ℕ) : Inventory :=
  match inventory.lookup entityID with
  | none => inventory
  | some r => if proofRev ≠ 0 ∧ r.revision > proofRev then inventory else inventory.remove entityID

/-! ## Operations -/

/-- Where an operation on a key stands: before `recordEntityPoison`; in
`verifyEntityPoisonRecord`; before `dropEntityPoisonRecord`, with what an exact
query found meanwhile; in `clearEntityPoisonOnValidRead`; in
`inventoryEntityPoisonAtCurrentRevision`; in `clearEntityPoisonOnCommit` before
the size, the lookup and the re-read (`0` when the lane does not know its
revision); in `clearEntityPoisonOnDelete`. -/
inductive Pc
  | detected (reason : StateResetReason) (revision : ℕ)
  | verifying
  | dropping (proofRev : ℕ) (found : Option (StateResetReason × ℕ))
  | validRead (readRev : ℕ) (found : Option (StateResetReason × ℕ))
  | rmwFailed (reason : StateResetReason)
  | committed (committedRev : ℕ)
  | checking (committedRev : ℕ)
  | resolving
  | deleted

structure Op where
  key : String
  pc : Pc

structure Poisonable (Bytes : Type*) where
  log : KeyedLog String Bytes
  inventory : Inventory
  ops : ℕ → Option Op

open Poisonable

/-- Any bucket, nothing inventoried yet. -/
def Poisonable.init {Bytes : Type*} (log : KeyedLog String Bytes) : Poisonable Bytes where
  log := log
  inventory := Window.empty
  ops := fun _ => none

/-- Bytes that fail the decode appear under a key; the snapshot delivers a
revision to the boot sweep; a query (an exact one also compares the id) or a
mutation reads a key; a read-modify-write fails on what it read; a commit
through the write gate and a delete; an operation takes its next step. -/
inductive PoisonEvent (Bytes : Type*)
  | poison (key : String) (data : Bytes)
  | deliver (n : ℕ) (revision : ℕ)
  | read (n : ℕ) (key : String) (checksID : Bool)
  | rmw (n : ℕ) (key : String)
  | commit (n : ℕ) (key : String) (data : Bytes) (known : Bool)
  | delete (n : ℕ) (key : String)
  | advance (n : ℕ)

section Operations

variable {Bytes : Type*} (parse : Bytes → Option EntityState)

/-- A re-read of the key: its revision proves the key valid when the value
decodes. -/
def reread (log : KeyedLog String Bytes) (key : String) (gone : Option Pc)
    (failed : ℕ → Option Pc) : Option Pc :=
  match snapshot log key with
  | none => gone
  | some (data, revision) =>
    if decodes parse data then some (.dropping revision none) else failed revision

/-- The detection after a validating read. -/
def Pc.ofFound (found : Option (StateResetReason × ℕ)) : Option Pc :=
  found.map fun f => .detected f.1 f.2

/-- The next step of an operation: the inventory after it and where the
operation goes on. -/
def advance (log : KeyedLog String Bytes) (inventory : Inventory) (key : String) :
    Pc → Inventory × Option Pc
  | .detected reason revision =>
    let recorded := recordEntityPoison inventory ⟨key, reason, revision⟩
    (recorded.1, if recorded.2 then some .verifying else none)
  | .verifying => (inventory, reread parse log key (some (.dropping 0 none)) fun _ => none)
  | .dropping proofRev found => (dropEntityPoisonRecord inventory key proofRev, Pc.ofFound found)
  | .validRead readRev found =>
    (inventory, if inventory.items.length = 0 then Pc.ofFound found
      else some (.dropping readRev found))
  | .rmwFailed reason =>
    (inventory, reread parse log key none fun revision => some (.detected reason revision))
  | .committed committedRev =>
    (inventory, if inventory.items.length = 0 then none else some (.checking committedRev))
  | .checking committedRev =>
    (inventory, if (inventory.lookup key).isNone then none
      else if committedRev = 0 then some .resolving else some (.dropping committedRev none))
  | .resolving => (inventory, reread parse log key none fun _ => none)
  | .deleted => (inventory, if inventory.items.length = 0 then none else some (.dropping 0 none))

/-- A reader decodes the bytes it got and records them or clears. -/
def readEntity (key : String) (checksID : Bool) (data : Bytes) (revision : ℕ) : Pc :=
  match unmarshalEntityState parse data with
  | .error reason => .detected reason revision
  | .ok entity =>
    .validRead revision
      (if checksID ∧ entity.id ≠ key then some (.noncanonicalEntityID, revision) else none)

variable {parse}

def Poisonable.start (s : Poisonable Bytes) (n : ℕ) (key : String) (pc : Pc) : Poisonable Bytes :=
  { s with ops := update s.ops n (some ⟨key, pc⟩) }

variable (parse)

def poisonStep (s : Poisonable Bytes) : PoisonEvent Bytes → Option (Poisonable Bytes)
  | .poison key data =>
    if decodes parse data then none else some { s with log := (key, some data) :: s.log }
  | .deliver n revision =>
    match s.ops n, writeAt s.log revision with
    | none, some (key, some data) =>
      match unmarshalEntityState parse data with
      | .error reason => some (s.start n key (.detected reason revision))
      | .ok _ => none
    | _, _ => none
  | .read n key checksID =>
    match s.ops n, snapshot s.log key with
    | none, some (data, revision) => some (s.start n key (readEntity parse key checksID data revision))
    | _, _ => none
  | .rmw n key =>
    match s.ops n, current s.log key with
    | none, some data =>
      match unmarshalEntityState parse data with
      | .error reason => some (s.start n key (.rmwFailed reason))
      | .ok _ => none
    | _, _ => none
  | .commit n key data known =>
    match s.ops n with
    | some _ => none
    | none =>
      if decodes parse data then
        let committedRev := if known then s.log.length + 1 else 0
        some (start { s with log := (key, some data) :: s.log } n key (.committed committedRev))
      else none
  | .delete n key =>
    match s.ops n with
    | some _ => none
    | none => some (start { s with log := (key, none) :: s.log } n key .deleted)
  | .advance n =>
    match s.ops n with
    | none => none
    | some op =>
      let next := advance parse s.log s.inventory op.key op.pc
      some { s with
        inventory := next.1
        ops := update s.ops n (next.2.map fun pc => ⟨op.key, pc⟩) }

end Operations

/-! ## Who clears a stale record -/

section Clearing

variable {Bytes : Type*} (parse : Bytes → Option EntityState)

/-- The key's value is canonical or gone. -/
def Clean (log : KeyedLog String Bytes) (key : String) : Prop :=
  ∀ data, current log key = some data → decodes parse data = true

/-- The revision is a write of the key whose bytes are invalid. -/
def NamesInvalid (log : KeyedLog String Bytes) (key : String) (revision : ℕ) : Prop :=
  ∃ data, writeAt log revision = some (key, some data) ∧ invalidFor parse key data = true

/-- **The operation will drop a stale record of the key**, wherever it stands.
A commit with its revision known does so while it is the key's last write, one
that re-reads while there is a value to find. -/
def Pc.Clears (log : KeyedLog String Bytes) (key : String) : Pc → Prop
  | .verifying | .deleted => True
  | .dropping proofRev _ => proofRev = 0 ∨ lastRevision log key ≤ proofRev
  | .committed committedRev | .checking committedRev =>
    if committedRev = 0 then current log key ≠ none else lastRevision log key ≤ committedRev
  | .resolving => current log key ≠ none
  | .detected .. | .validRead .. | .rmwFailed .. => False

/-- What an operation is about to record is invalid. -/
def Pc.Sound (log : KeyedLog String Bytes) (key : String) : Pc → Prop
  | .detected _ revision => NamesInvalid parse log key revision
  | .dropping _ found | .validRead _ found =>
    ∀ reason revision, found = some (reason, revision) → NamesInvalid parse log key revision
  | _ => True

variable {parse} {log : KeyedLog String Bytes} {inventory : Inventory} {key k : String}
  {revision : ℕ}

theorem invalidFor_of_not_decodes (h : ¬ decodes parse data) :
    invalidFor parse key data := by
  unfold invalidFor
  unfold decodes at h
  split
  · rfl
  · next _ hok =>
    rw [hok] at h
    exact absurd rfl h

theorem NamesInvalid.le_lastRevision (h : NamesInvalid parse log key revision) :
    revision ≤ lastRevision log key := by
  obtain ⟨_, hw, -⟩ := h
  exact KeyedLog.le_lastRevision hw

variable (w : String × Option Bytes)

theorem NamesInvalid.cons (h : NamesInvalid parse log key revision) :
    NamesInvalid parse (w :: log) key revision := by
  obtain ⟨data, hw, hinv⟩ := h
  exact ⟨data, writeAt_cons hw, hinv⟩

variable {pc : Pc}

theorem Pc.Sound.cons (h : pc.Sound parse log key) : pc.Sound parse (w :: log) key := by
  cases pc with
  | detected => exact NamesInvalid.cons w h
  | dropping | validRead => exact fun reason revision hf => (h reason revision hf).cons w
  | _ => trivial

/-- A write of another key changes nothing about this one. -/
theorem Pc.clears_cons_of_ne (hne : k ≠ key) :
    pc.Clears ((k, v) :: log) key ↔ pc.Clears log key := by
  cases pc <;> simp [Pc.Clears, lastRevision_cons_of_ne hne, current_cons_of_ne hne]

theorem clean_cons_of_ne (hne : k ≠ key) :
    Clean parse ((k, v) :: log) key ↔ Clean parse log key := by
  unfold Clean
  rw [current_cons_of_ne hne]

/-! ### One step of an operation -/

variable {x : PoisonRecord}

theorem mem_recordEntityPoison (h : x ∈ (recordEntityPoison inventory r).1.items) :
    x = r ∨ x ∈ inventory.items := by
  unfold recordEntityPoison at h
  split at h
  · exact .inr h
  split at h
  · split at h
    · exact (Window.mem_put.1 h).imp id And.left
    · exact .inr h
  · exact (Window.mem_put.1 h).imp id And.left

theorem mem_dropEntityPoisonRecord (h : x ∈ (dropEntityPoisonRecord inventory k p).items) :
    x ∈ inventory.items ∧ (x.entityID = k → p ≠ 0 ∧ p < x.revision) := by
  unfold dropEntityPoisonRecord at h
  split at h
  · next hnone =>
    refine ⟨h, ?_⟩
    rintro rfl
    rw [Window.lookup_of_mem h] at hnone
    cases hnone
  · next y hy =>
    split at h
    · next hkeep =>
      refine ⟨h, ?_⟩
      rintro rfl
      rw [Window.lookup_of_mem h] at hy
      rw [Option.some.inj hy]
      exact hkeep
    · obtain ⟨hmem, hne⟩ := Window.mem_remove.1 h
      exact ⟨hmem, fun heq => absurd heq hne⟩

/-- A re-read of a clean key finds nothing, or proves it valid at its last revision. -/
theorem reread_of_clean (h : Clean parse log key) :
    (current log key = none ∧ reread parse log key gone failed = gone) ∨
      reread parse log key gone failed = some (.dropping (lastRevision log key) none) := by
  unfold reread
  split
  · next hnone => exact .inl ⟨snapshot_eq_none hnone, rfl⟩
  · next data _ hsome =>
    obtain ⟨hcur, rfl⟩ := snapshot_eq_some hsome
    rw [if_pos (h data hcur)]
    exact .inr rfl

/-- A re-read that fails the decode fails it at a revision of the key. -/
theorem reread_eq_some (h : reread parse log key gone failed = some pc) :
    gone = some pc ∨ pc = .dropping (lastRevision log key) none ∨
      ∃ revision, NamesInvalid parse log key revision ∧ failed revision = some pc := by
  unfold reread at h
  split at h
  · exact .inl h
  next data revision hsome =>
  obtain ⟨hcur, rfl⟩ := snapshot_eq_some hsome
  split at h
  · exact .inr (.inl (Option.some.inj h).symm)
  · next hfail =>
    exact .inr (.inr ⟨_, ⟨data, writeAt_of_current hcur, invalidFor_of_not_decodes hfail⟩, h⟩)

/-- A step leaves the records of other keys, and what it adds is invalid. -/
theorem mem_advance (hsound : pc.Sound parse log key)
    (hx : x ∈ (advance parse log inventory key pc).1.items) :
    x ∈ inventory.items ∨ (x.entityID = key ∧ NamesInvalid parse log key x.revision) := by
  cases pc with
  | detected reason revision =>
    rcases mem_recordEntityPoison hx with rfl | hold
    · exact .inr ⟨rfl, hsound⟩
    · exact .inl hold
  | dropping proofRev found => exact .inl (mem_dropEntityPoisonRecord hx).1
  | _ => exact .inl hx

theorem Pc.sound_ofFound
    (h : ∀ reason revision, found = some (reason, revision) → NamesInvalid parse log key revision)
    (hpc : Pc.ofFound found = some pc) : pc.Sound parse log key := by
  obtain ⟨f, hf, rfl⟩ := map_eq_some_iff.1 hpc
  exact h f.1 f.2 hf

theorem advance_sound (hsound : pc.Sound parse log key)
    (h : (advance parse log inventory key pc).2 = some pc') : pc'.Sound parse log key := by
  have hdrop : ∀ {q}, (Pc.dropping q none).Sound parse log key := nofun
  cases pc with
  | detected reason revision =>
    dsimp only [advance] at h
    split at h <;> cases h
    trivial
  | verifying =>
    rcases reread_eq_some h with h | rfl | ⟨_, -, h⟩
    · cases h
      exact hdrop
    · exact hdrop
    · cases h
  | dropping proofRev found => exact Pc.sound_ofFound hsound h
  | validRead readRev found =>
    dsimp only [advance] at h
    split at h
    · exact Pc.sound_ofFound hsound h
    · cases h
      exact hsound
  | rmwFailed reason =>
    rcases reread_eq_some h with h | rfl | ⟨revision, hinvalid, h⟩
    · cases h
    · exact hdrop
    · cases h
      exact hinvalid
  | committed committedRev =>
    dsimp only [advance] at h
    split at h <;> cases h
    trivial
  | checking committedRev =>
    dsimp only [advance] at h
    obtain ⟨_, h⟩ := ite_none_left_eq_some.1 h
    split at h <;> cases h
    · trivial
    · exact hdrop
  | resolving =>
    rcases reread_eq_some h with h | rfl | ⟨_, -, h⟩
    · cases h
    · exact hdrop
    · cases h
  | deleted =>
    dsimp only [advance] at h
    split at h <;> cases h
    exact hdrop

/-- **A stale record keeps its clearing operation.** Where a record of a clean
key is left after a step, the operation that took it goes on to drop it, or
it was not going to and there was a record before. -/
theorem advance_clears
    (hrecords : ∀ y ∈ inventory.items, NamesInvalid parse log y.entityID y.revision)
    (hx : x ∈ (advance parse log inventory key pc).1.items) (hkey : x.entityID = key)
    (hclean : Clean parse log key) :
    (∃ pc', (advance parse log inventory key pc).2 = some pc' ∧ pc'.Clears log key) ∨
      (¬ pc.Clears log key ∧ ∃ y ∈ inventory.items, y.entityID = key) := by
  have hsize : ∀ {inv : Inventory}, x ∈ inv.items → inv.items.length ≠ 0 := by
    intro inv hmem h0
    rw [eq_nil_of_length_eq_zero h0] at hmem
    cases hmem
  have hlast : ∀ {found}, (Pc.dropping (lastRevision log key) found).Clears log key :=
    .inr (Nat.le_refl _)
  cases pc with
  | detected reason revision =>
    cases hnew : (recordEntityPoison inventory ⟨key, reason, revision⟩).2 with
    | true => exact .inl ⟨.verifying, by simp [advance, hnew], trivial⟩
    | false =>
      -- an entity that is not newly inventoried had a record
      refine .inr ⟨id, ?_⟩
      change x ∈ (recordEntityPoison inventory _).1.items at hx
      unfold recordEntityPoison at hx hnew
      split at hx
      · exact ⟨x, hx, hkey⟩
      next hid =>
      rw [if_neg hid] at hnew
      split at hnew
      · next y hy => exact ⟨y, Window.mem_of_lookup hy⟩
      · exact Bool.noConfusion hnew
  | verifying =>
    rcases reread_of_clean hclean with ⟨-, h⟩ | h
    · exact .inl ⟨_, h, .inl rfl⟩
    · exact .inl ⟨_, h, hlast⟩
  | dropping proofRev found =>
    obtain ⟨hmem, hkeep⟩ := mem_dropEntityPoisonRecord hx
    obtain ⟨hne, _⟩ := hkeep hkey
    refine .inr ⟨?_, x, hmem, hkey⟩
    -- the record is newer than the proof, and at most as new as the key
    have hle := (hrecords x hmem).le_lastRevision
    rw [hkey] at hle
    rintro (h0 | h)
    · exact hne h0
    · omega
  | validRead | rmwFailed => exact .inr ⟨id, x, hx, hkey⟩
  | committed committedRev =>
    by_cases hclears : (Pc.committed committedRev).Clears log key
    · exact .inl ⟨.checking committedRev, if_neg (hsize hx), hclears⟩
    · exact .inr ⟨hclears, x, hx, hkey⟩
  | checking committedRev =>
    by_cases hclears : (Pc.checking committedRev).Clears log key
    · have hfound : ¬ (inventory.lookup key).isNone := by
        have hmem : x ∈ inventory.items := hx
        rw [← hkey, Window.lookup_of_mem hmem]
        simp
      simp only [Pc.Clears] at hclears
      simp only [advance, if_neg hfound]
      split at hclears
      · next h0 => exact .inl ⟨.resolving, if_pos h0, hclears⟩
      · next h0 => exact .inl ⟨.dropping committedRev none, if_neg h0, .inr hclears⟩
    · exact .inr ⟨hclears, x, hx, hkey⟩
  | resolving =>
    rcases reread_of_clean hclean with ⟨hgone, -⟩ | h
    · exact .inr ⟨fun hclears => hclears hgone, x, hx, hkey⟩
    · exact .inl ⟨_, h, hlast⟩
  | deleted => exact .inl ⟨.dropping 0 none, if_neg (hsize hx), .inl rfl⟩

end Clearing

/-! ## Runs -/

variable {Bytes : Type*} (parse : Bytes → Option EntityState)

/-- **What every reachable state keeps.** Records and pending detections name
invalid revisions, and a record of a clean key has an operation that clears it. -/
structure Poisonable.Sound (s : Poisonable Bytes) : Prop where
  records : ∀ x ∈ s.inventory.items, NamesInvalid parse s.log x.entityID x.revision
  ops : ∀ n op, s.ops n = some op → op.pc.Sound parse s.log op.key
  cleared : ∀ x ∈ s.inventory.items, Clean parse s.log x.entityID →
    ∃ n pc, s.ops n = some ⟨x.entityID, pc⟩ ∧ pc.Clears s.log x.entityID

variable {parse} {s : Poisonable Bytes} {n : ℕ} {key : String} {data : Bytes}

theorem Poisonable.sound_init (log : KeyedLog String Bytes) : (init log).Sound parse where
  records := fun _ hx => absurd hx (by simp [init])
  ops := nofun
  cleared := fun _ hx => absurd hx (by simp [init])

/-- A new operation takes a free slot and leaves the others. -/
theorem Poisonable.Sound.start (hs : s.Sound parse) (hfree : s.ops n = none)
    (hpc : pc.Sound parse s.log key) : (s.start n key pc).Sound parse where
  records := hs.records
  ops := forall_slot_fill hpc hs.ops
  cleared := by
    intro x hx hclean
    obtain ⟨m, pc', hm, hclears⟩ := hs.cleared x hx hclean
    exact ⟨m, pc', slot_of_free hfree hm, hclears⟩

/-- Bytes that fail the decode make their key unclean and leave the others. -/
theorem Poisonable.Sound.poison (hs : s.Sound parse) (hfail : ¬ decodes parse data) :
    Sound parse { s with log := (key, some data) :: s.log } where
  records := fun x hx => (hs.records x hx).cons _
  ops := fun m op hm => (hs.ops m op hm).cons _
  cleared := by
    intro x hx hclean
    by_cases hk : key = x.entityID
    · subst hk
      exact absurd (hclean data current_cons_self) hfail
    · obtain ⟨m, pc', hm, hclears⟩ := hs.cleared x hx ((clean_cons_of_ne hk).1 hclean)
      exact ⟨m, pc', hm, (Pc.clears_cons_of_ne hk).2 hclears⟩

/-- A commit or a delete comes with the operation that clears its key. -/
theorem Poisonable.Sound.mutate (hs : s.Sound parse) (hfree : s.ops n = none)
    (hpc : pc.Sound parse ((key, v) :: s.log) key) (hclears : pc.Clears ((key, v) :: s.log) key) :
    (Poisonable.start { s with log := (key, v) :: s.log } n key pc).Sound parse where
  records := fun x hx => (hs.records x hx).cons _
  ops := forall_slot_fill hpc fun m op hm => (hs.ops m op hm).cons _
  cleared := by
    intro x hx hclean
    by_cases hk : key = x.entityID
    · subst hk
      exact ⟨n, pc, update_self n _ s.ops, hclears⟩
    · obtain ⟨m, pc', hm, hclears'⟩ := hs.cleared x hx ((clean_cons_of_ne hk).1 hclean)
      exact ⟨m, pc', slot_of_free hfree hm, (Pc.clears_cons_of_ne hk).2 hclears'⟩

theorem Poisonable.Sound.advance (hs : s.Sound parse) (hop : s.ops n = some op) :
    Sound parse
      { s with
        inventory := (advance parse s.log s.inventory op.key op.pc).1
        ops := update s.ops n
          ((advance parse s.log s.inventory op.key op.pc).2.map fun pc => ⟨op.key, pc⟩) } where
  records := by
    intro x hx
    rcases mem_advance (hs.ops n op hop) hx with hold | ⟨hkey, hinvalid⟩
    · exact hs.records x hold
    · exact hkey ▸ hinvalid
  ops := by
    refine forall_slot_update ?_ hs.ops
    intro _ hop'
    obtain ⟨pc', hpc', rfl⟩ := map_eq_some_iff.1 hop'
    exact advance_sound (hs.ops n op hop) hpc'
  cleared := by
    intro x hx hclean
    -- an operation that cleared this key before and is not the one that steps
    have hother : ∀ y ∈ s.inventory.items, y.entityID = x.entityID →
        (op.key = x.entityID → ¬ op.pc.Clears s.log x.entityID) →
        ∃ m pc, update s.ops n ((GraphIngest.advance parse s.log s.inventory op.key
          op.pc).2.map fun pc => ⟨op.key, pc⟩) m = some ⟨x.entityID, pc⟩ ∧
          pc.Clears s.log x.entityID := by
      intro y hy hyx hnot
      obtain ⟨m, pc', hm, hclears⟩ := hs.cleared y hy (hyx ▸ hclean)
      rw [hyx] at hm hclears
      refine ⟨m, pc', ?_, hclears⟩
      have hmn : m ≠ n := by
        rintro rfl
        rw [hop] at hm
        rw [Option.some.inj hm] at hnot
        exact hnot rfl hclears
      rw [← hm]
      exact update_of_ne hmn _ _
    by_cases hk : x.entityID = op.key
    · rcases advance_clears hs.records hx hk (hk ▸ hclean) with
        ⟨pc', hpc', hclears⟩ | ⟨hnot, y, hy, hyk⟩
      · refine ⟨n, pc', ?_, hk ▸ hclears⟩
        rw [hk]
        exact (update_self n _ s.ops).trans (by rw [hpc']; rfl)
      · exact hother y hy (hyk.trans hk.symm) fun _ => hk ▸ hnot
    · rcases mem_advance (hs.ops n op hop) hx with hold | ⟨hkey, -⟩
      · exact hother x hold rfl fun h => absurd h.symm hk
      · exact absurd hkey hk

/-- What a reader found at the key's last revision. -/
theorem readEntity_sound {log : KeyedLog String Bytes} {checksID : Bool} {revision : ℕ}
    (hw : writeAt log revision = some (key, some data)) :
    (readEntity parse key checksID data revision).Sound parse log key := by
  unfold readEntity
  split
  · next reason herr => exact ⟨data, hw, by simp [invalidFor, herr]⟩
  · next _ hok =>
    intro reason _ hfound
    split at hfound
    · next hmismatch =>
      cases hfound
      exact ⟨data, hw, by simp [invalidFor, hok, hmismatch.2]⟩
    · cases hfound

theorem Poisonable.Sound.step (hs : s.Sound parse)
    (h : poisonStep parse s e = some s') : s'.Sound parse := by
  cases e with (simp only [poisonStep] at h; (try split at h <;> try contradiction); try cases h)
  | poison key data =>
    rename_i hfail
    exact hs.poison hfail
  | deliver n revision =>
    rename_i key data hfree hw
    split at h
    · next _ herr =>
      cases h
      exact hs.start hfree ⟨data, hw, by simp [invalidFor, herr]⟩
    · cases h
  | read n key checksID =>
    rename_i data revision hfree hsnap
    obtain ⟨hcur, rfl⟩ := snapshot_eq_some hsnap
    exact hs.start hfree (readEntity_sound (writeAt_of_current hcur))
  | rmw n key =>
    rename_i data hfree hcur
    split at h <;> cases h
    exact hs.start hfree trivial
  | commit n key data known =>
    rename_i hfree
    obtain ⟨_, h⟩ := ite_none_right_eq_some.1 h
    cases h
    refine hs.mutate hfree trivial ?_
    simp only [Pc.Clears, lastRevision_cons_self, current_cons_self]
    cases known <;> simp
  | delete n key =>
    rename_i hfree
    exact hs.mutate hfree trivial trivial
  | advance n =>
    rename_i _ hop
    exact hs.advance hop

/-- **The inventory converges.** Over any bucket, any decoder and any
interleaving, once no operation is left a record stands only for a key whose
bytes fail the decode, and it names a revision of the key whose bytes are
invalid. -/
theorem inventory_converges {log : KeyedLog String Bytes} {es : List (PoisonEvent Bytes)}
    (hrun : run (poisonStep parse) (init log) es = some s) (hdone : ∀ n, s.ops n = none) :
    ∀ x ∈ s.inventory.items,
      (∃ data, current s.log x.entityID = some data ∧ decodes parse data = false) ∧
        NamesInvalid parse s.log x.entityID x.revision := by
  have hs : s.Sound parse :=
    run_invariant (I := Sound parse) (fun _ _ _ hs h => hs.step h)
      (sound_init log) hrun
  intro x hx
  refine ⟨?_, hs.records x hx⟩
  by_contra hvalid
  have hclean : Clean parse s.log x.entityID := by
    intro data hcur
    by_contra hfail
    exact hvalid ⟨data, hcur, by simpa using hfail⟩
  obtain ⟨n, _, hn, -⟩ := hs.cleared x hx hclean
  rw [hdone n] at hn
  cases hn

def repairedDrone : EntityState where
  id := "c360.prod.robotics.gcs.drone.001"
  triples := []
  storageRef := none
  messageType := ⟨"", "", ""⟩
  version := 1
  updatedAt := 0

/-- JSON that parses to the repaired entity, or does not. -/
def droneJSON : Bool → Option EntityState
  | true => some repairedDrone
  | false => none

def poisonedDrones : KeyedLog String Bool :=
  [("c360.prod.robotics.gcs.drone.002", some false),
    ("c360.prod.robotics.gcs.drone.001", some false)]

/-- The sweep gets both keys, and one is repaired before the sweep records it. -/
def repairDuringSweep : List (PoisonEvent Bool) :=
  [.deliver 0 1, .deliver 1 2, .commit 2 "c360.prod.robotics.gcs.drone.001" true true,
    .advance 2, .advance 0, .advance 1, .advance 0, .advance 1, .advance 0]

set_option maxRecDepth 10000 in
theorem inventory_converges_repair :
    ∃ s, run (poisonStep droneJSON) (init poisonedDrones) repairDuringSweep = some s ∧
      s.inventory.items = [⟨"c360.prod.robotics.gcs.drone.002", .unreadableEntity, 2⟩] ∧
      ∀ x ∈ s.inventory.items,
        (∃ data, current s.log x.entityID = some data ∧ decodes droneJSON data = false) ∧
          NamesInvalid droneJSON s.log x.entityID x.revision := by
  have hrun : run (poisonStep droneJSON) (init poisonedDrones) repairDuringSweep =
      some _ := rfl
  refine ⟨_, hrun, rfl, inventory_converges hrun ?_⟩
  intro n
  match n with
  | 0 | 1 | 2 => rfl
  | n + 3 => rfl

end SemStreams.GraphIngest
