import SemStreams.Inference.Anomaly
import SemStreams.Lib.Run
import SemStreams.Lib.Slots
/-!
# inference — the anomaly storage and its cleanup

An operation of the storage is several calls of the bucket: the record first, then the index
keys, and a crash or a failing call may stop it after any of them. `Cleanup` reads the records
that the index keys of three resolved statuses name, and deletes those detected before the
cutoff.

What it never does is look at the status the record has. A record that left a resolved status
while its old index key stayed is read and deleted. It cannot happen where a record with one
of the three statuses never leaves them for an unresolved one (`careful`), or where operations
neither fail nor overlap (`alone`); in the latter case a query by status is exact.
-/

namespace SemStreams.Inference

open List Option

/-- `resolvedStatuses` of `Cleanup`. -/
def cleanupStatuses : List AnomalyStatus := [.applied, .rejected, .llmRejected]

theorem isResolved_of_cleanup {a : Anomaly} (h : a.status ∈ cleanupStatuses) :
    a.isResolved := by
  simp only [cleanupStatuses, mem_cons, not_mem_nil, or_false] at h
  rcases h with h | h | h <;> simp [Anomaly.isResolved, h]

/-! ## Operations -/

/-- The `Cleanup` a deletion belongs to: the record it read, its cutoff, the statuses it has not
listed yet, and the records of the current one it has not looked at yet. -/
structure Caller where
  read : Anomaly
  cutoff : ℤ
  statuses : List AnomalyStatus
  got : List Anomaly

/-- Where an operation is: before one of its calls of the bucket. -/
inductive Op where
  | saveRead (a : Anomaly) (revision : ℕ)
  | saveWrite (a : Anomaly) (revision : ℕ) (existing : Option Anomaly)
  | saveUnindex (a : Anomaly) (existing : Option Anomaly)
  | saveIndex (a : Anomaly) (existing : Option Anomaly)
  | saveType (a : Anomaly)
  | updateRead (id : AnomalyId) (status : AnomalyStatus) (reviewedBy notes : String) (now : ℤ)
  | deleteRead (id : AnomalyId) (caller : Option Caller)
  | deleteStatus (a : Anomaly) (caller : Option Caller)
  | deleteType (a : Anomaly) (caller : Option Caller)
  | deleteRecord (id : AnomalyId) (caller : Option Caller)
  | cleanupList (cutoff : ℤ) (statuses : List AnomalyStatus)
  | cleanupRead (cutoff : ℤ) (statuses : List AnomalyStatus) (unread : List String)
      (got : List Anomaly)
  | cleanupDelete (cutoff : ℤ) (statuses : List AnomalyStatus) (got : List Anomaly)

inductive Call where
  | save (a : Anomaly)
  | saveWithRevision (a : Anomaly) (revision : ℕ)
  | updateStatus (id : AnomalyId) (status : AnomalyStatus) (reviewedBy notes : String) (now : ℤ)
  | delete (id : AnomalyId)
  | cleanup (cutoff : ℤ)

def Call.op : Call → Op
  | save a => .saveRead a 0
  | saveWithRevision a revision => .saveRead a revision
  | updateStatus id status reviewedBy notes now => .updateRead id status reviewedBy notes now
  | delete id => .deleteRead id none
  | cleanup cutoff => .cleanupList cutoff cleanupStatuses

/-- How the bucket answers: done, or failed, having taken effect or not. -/
inductive Answer where
  | done
  | failed (landed : Bool)
deriving DecidableEq

def Answer.landed : Answer → Bool
  | done => true
  | failed landed => landed

/-- The fields `UpdateStatus` sets. -/
def Anomaly.updated (a : Anomaly) (status : AnomalyStatus) (reviewedBy notes : String)
    (now : ℤ) : Anomaly :=
  { a with
    status := status
    reviewedBy := if reviewedBy = "" then a.reviewedBy else reviewedBy
    reviewedAt := if reviewedBy = "" then a.reviewedAt else some now
    reviewNotes := if notes = "" then a.reviewNotes else notes }

/-- What a deletion returns to. -/
def resume : Option Caller → Option Op
  | none => none
  | some c => some (.cleanupDelete c.cutoff c.statuses c.got)

/-- A record `Cleanup` deleted: what it had read, and its cutoff. -/
structure Removal where
  read : Anomaly
  cutoff : ℤ
deriving DecidableEq

/-- What a call of the bucket leaves: the bucket, the operation's next call, the record it wrote
and the removal it made, if any. -/
structure Outcome where
  store : Store
  next : Option Op
  written : Option Anomaly
  removed : Option Removal

/-- The write of a record takes effect: there is no revision to compare, or it is current. -/
def Store.accepts (s : Store) (a : Anomaly) (revision : ℕ) : Bool :=
  revision = 0 || s.revision a.id = some revision

open Store

/-- The index key of the status a saved record had before, if it is another one. -/
def staleKey (a : Anomaly) : Option Anomaly → Option IndexKey
  | none => none
  | some e => if e.status = a.status then none else some (.status e.status a.id)

/-- Drop a key if there is one and the call takes effect. -/
def Store.unindex (s : Store) (key : Option IndexKey) (answer : Answer) : Store :=
  match key with
  | none => s
  | some key => if answer.landed then s.dropIndex key else s

/-- Put a key if the call takes effect. -/
def Store.reindex (s : Store) (key : IndexKey) (answer : Answer) : Store :=
  if answer.landed then s.putIndex key else s

/-- **One call of the bucket.** `none` for a listing that succeeds: that is another event. -/
def advance (s : Store) (op : Op) (answer : Answer) : Option Outcome :=
  match op with
  | .saveRead a revision =>
    match answer with
    | .done => some ⟨s, some (.saveWrite a revision (s.get a.id)), none, none⟩
    | .failed _ => some ⟨s, none, none, none⟩
  | .saveWrite a revision existing =>
    if answer.landed && s.accepts a revision then
      let next := match answer with
        | .done => some (Op.saveUnindex a existing)
        | .failed _ => none
      some ⟨s.putRecord a, next, some a, none⟩
    else some ⟨s, none, none, none⟩
  | .saveUnindex a existing =>
    -- an error of this deletion is ignored
    some ⟨s.unindex (staleKey a existing) answer, some (.saveIndex a existing), none, none⟩
  | .saveIndex a existing =>
    let next := match answer with
      | .done => if existing.isNone then some (Op.saveType a) else none
      | .failed _ => none
    some ⟨s.reindex (.status a.status a.id) answer, next, none, none⟩
  | .saveType a => some ⟨s.reindex (.type a.type a.id) answer, none, none, none⟩
  | .updateRead id status reviewedBy notes now =>
    match answer with
    | .done =>
      some ⟨s, (s.get id).map fun a => .saveRead (a.updated status reviewedBy notes now) 0,
        none, none⟩
    | .failed _ => some ⟨s, none, none, none⟩
  | .deleteRead id caller =>
    match answer with
    | .done =>
      match s.get id with
      | none => some ⟨s, resume caller, none, none⟩
      | some a => some ⟨s, some (.deleteStatus a caller), none, none⟩
    | .failed _ => some ⟨s, resume caller, none, none⟩
  | .deleteStatus a caller =>
    some ⟨s.unindex (some (.status a.status a.id)) answer, some (.deleteType a caller), none, none⟩
  | .deleteType a caller =>
    some ⟨s.unindex (some (.type a.type a.id)) answer, some (.deleteRecord a.id caller), none, none⟩
  | .deleteRecord id caller =>
    if answer.landed then
      some ⟨s.dropRecord id, resume caller, none, caller.map fun c => ⟨c.read, c.cutoff⟩⟩
    else some ⟨s, resume caller, none, none⟩
  | .cleanupList cutoff statuses =>
    match statuses, answer with
    | [], _ => some ⟨s, none, none, none⟩
    | _ :: _, .done => none
    | _ :: statuses, .failed _ => some ⟨s, some (.cleanupList cutoff statuses), none, none⟩
  | .cleanupRead cutoff statuses unread got =>
    match unread with
    | [] => some ⟨s, some (.cleanupDelete cutoff statuses got), none, none⟩
    | id :: unread =>
      let found := match answer with
        | .done => (s.find id).toList
        | .failed _ => []
      some ⟨s, some (.cleanupRead cutoff statuses unread (got ++ found)), none, none⟩
  | .cleanupDelete cutoff statuses got =>
    match got with
    | [] => some ⟨s, some (.cleanupList cutoff statuses), none, none⟩
    | a :: got =>
      if a.detectedAt < cutoff then
        some ⟨s, some (.deleteRead a.id (some ⟨a, cutoff, statuses, got⟩)), none, none⟩
      else some ⟨s, some (.cleanupDelete cutoff statuses got), none, none⟩

/-- A listing that succeeds, the keys in some order. -/
def listing (s : Store) (op : Op) (keys : List IndexKey) : Option Outcome :=
  match op with
  | .cleanupList cutoff (status :: statuses) =>
    if keys.Perm s.index then
      some ⟨s, some (.cleanupRead cutoff statuses (idsByStatus keys status) []), none, none⟩
    else none
  | _ => none

/-! ## Runs -/

/-- The bucket and the operations in flight. `settled` remembers which identifiers ever had a
stored record with one of the statuses `Cleanup` lists, `removed` what `Cleanup` deleted. -/
structure State where
  store : Store
  ops : AList fun _ : ℕ => Op
  settled : List AnomalyId
  removed : List Removal

def State.initial : State := ⟨.empty, ∅, [], []⟩

inductive Event where
  | begin (i : ℕ) (call : Call)
  | act (i : ℕ) (answer : Answer)
  | list (i : ℕ) (keys : List IndexKey)
  | crash (i : ℕ)

def settles (written : Option Anomaly) : List AnomalyId :=
  match written with
  | some a => if a.status ∈ cleanupStatuses then [a.id] else []
  | none => []

def State.after (s : State) (i : ℕ) (out : Outcome) : State where
  store := out.store
  ops := setSlot s.ops i out.next
  settled := settles out.written ++ s.settled
  removed := s.removed ++ out.removed.toList

def step (s : State) : Event → Option State
  | .begin i call =>
    match s.ops.lookup i with
    | none => some { s with ops := s.ops.insert i call.op }
    | some _ => none
  | .act i answer => (s.ops.lookup i).bind fun op => (advance s.store op answer).map (s.after i)
  | .list i keys => (s.ops.lookup i).bind fun op => (listing s.store op keys).map (s.after i)
  | .crash i =>
    match s.ops.lookup i with
    | none => none
    | some _ => some { s with ops := s.ops.erase i }

/-- **A settled anomaly stays resolved**: no call writes an unresolved record for an identifier
that had one of the statuses `Cleanup` lists. -/
def careful (s : State) : Event → Bool
  | .act i answer =>
    match s.ops.lookup i with
    | some op =>
      match (advance s.store op answer).bind Outcome.written with
      | some a => a.isResolved || a.id ∉ s.settled
      | none => true
    | none => true
  | _ => true

/-- **Nothing fails, crashes or overlaps.** -/
def alone (s : State) : Event → Bool
  | .begin _ _ => s.ops.entries.isEmpty
  | .act i answer =>
    match s.ops.lookup i, answer with
    -- a step that is no call of the bucket has no answer to fail
    | some _, .done => true
    | _, _ => false
  | .list _ _ => true
  | .crash _ => false

/-- The `Cleanup` an operation's deletion belongs to. -/
def Op.caller : Op → Option Caller
  | deleteRead _ caller | deleteStatus _ caller | deleteType _ caller | deleteRecord _ caller =>
    caller
  | _ => none

/-! ## What one call can do -/

/-- The calls of the bucket, one by one: `advance` and `listing` in one relation. -/
inductive Moves (s : Store) : Op → Answer → Outcome → Prop
  | failed {op : Op} {landed : Bool} (h : op.caller = none) :
      Moves s op (.failed landed) ⟨s, none, none, none⟩
  | found {a : Anomaly} {revision : ℕ} : Moves s (.saveRead a revision) .done
        ⟨s, some (.saveWrite a revision (s.get a.id)), none, none⟩
  | refused {a : Anomaly} {revision : ℕ} {existing : Option Anomaly} {answer : Answer} :
      Moves s (.saveWrite a revision existing) answer ⟨s, none, none, none⟩
  | wrote {a : Anomaly} {revision : ℕ} {existing : Option Anomaly} :
      Moves s (.saveWrite a revision existing) .done
        ⟨s.putRecord a, some (.saveUnindex a existing), some a, none⟩
  | landed {a : Anomaly} {revision : ℕ} {existing : Option Anomaly} {landed : Bool} :
      Moves s (.saveWrite a revision existing) (.failed landed) ⟨s.putRecord a, none, some a, none⟩
  | unindexed {a : Anomaly} {existing : Option Anomaly} {answer : Answer} :
      Moves s (.saveUnindex a existing) answer
        ⟨s.unindex (staleKey a existing) answer, some (.saveIndex a existing), none, none⟩
  | indexed {a : Anomaly} {existing : Option Anomaly} {answer : Answer} {next : Option Op}
      (h : ∀ op, next = some op → op = .saveType a) :
      Moves s (.saveIndex a existing) answer
        ⟨s.reindex (.status a.status a.id) answer, next, none, none⟩
  | typed {a : Anomaly} {answer : Answer} :
      Moves s (.saveType a) answer ⟨s.reindex (.type a.type a.id) answer, none, none, none⟩
  | updated {id : AnomalyId} {status : AnomalyStatus} {reviewedBy notes : String} {now : ℤ}
      {next : Option Op} (h : ∀ op, next = some op → ∃ a, op = .saveRead a 0) :
      Moves s (.updateRead id status reviewedBy notes now) .done ⟨s, next, none, none⟩
  | returned {id : AnomalyId} {caller : Option Caller} {answer : Answer} :
      Moves s (.deleteRead id caller) answer ⟨s, resume caller, none, none⟩
  | read {id : AnomalyId} {caller : Option Caller} {a : Anomaly} (h : s.get id = some a) :
      Moves s (.deleteRead id caller) .done ⟨s, some (.deleteStatus a caller), none, none⟩
  | statusDropped {a : Anomaly} {caller : Option Caller} {answer : Answer} :
      Moves s (.deleteStatus a caller) answer
        ⟨s.unindex (some (.status a.status a.id)) answer, some (.deleteType a caller), none, none⟩
  | typeDropped {a : Anomaly} {caller : Option Caller} {answer : Answer} :
      Moves s (.deleteType a caller) answer
        ⟨s.unindex (some (.type a.type a.id)) answer, some (.deleteRecord a.id caller), none, none⟩
  | dropped {id : AnomalyId} {caller : Option Caller} {answer : Answer} :
      Moves s (.deleteRecord id caller) answer
        ⟨s.dropRecord id, resume caller, none, caller.map fun c => ⟨c.read, c.cutoff⟩⟩
  | kept {id : AnomalyId} {caller : Option Caller} {landed : Bool} :
      Moves s (.deleteRecord id caller) (.failed landed) ⟨s, resume caller, none, none⟩
  | cleaned {cutoff : ℤ} {answer : Answer} :
      Moves s (.cleanupList cutoff []) answer ⟨s, none, none, none⟩
  | skipped {cutoff : ℤ} {status : AnomalyStatus} {statuses : List AnomalyStatus}
      {landed : Bool} :
      Moves s (.cleanupList cutoff (status :: statuses)) (.failed landed)
        ⟨s, some (.cleanupList cutoff statuses), none, none⟩
  | listed {cutoff : ℤ} {status : AnomalyStatus} {statuses : List AnomalyStatus}
      {keys : List IndexKey} (h : keys.Perm s.index) :
      Moves s (.cleanupList cutoff (status :: statuses)) .done
        ⟨s, some (.cleanupRead cutoff statuses (idsByStatus keys status) []), none, none⟩
  | allRead {cutoff : ℤ} {statuses : List AnomalyStatus} {got : List Anomaly} {answer : Answer} :
      Moves s (.cleanupRead cutoff statuses [] got) answer
        ⟨s, some (.cleanupDelete cutoff statuses got), none, none⟩
  | readOne {cutoff : ℤ} {statuses : List AnomalyStatus} {text : String} {unread : List String}
      {got found : List Anomaly} {answer : Answer} (h : ∀ a ∈ found, s.find text = some a) :
      Moves s (.cleanupRead cutoff statuses (text :: unread) got) answer
        ⟨s, some (.cleanupRead cutoff statuses unread (got ++ found)), none, none⟩
  | allDeleted {cutoff : ℤ} {statuses : List AnomalyStatus} {answer : Answer} :
      Moves s (.cleanupDelete cutoff statuses []) answer
        ⟨s, some (.cleanupList cutoff statuses), none, none⟩
  | deletes {cutoff : ℤ} {statuses : List AnomalyStatus} {a : Anomaly} {got : List Anomaly}
      {answer : Answer} (h : a.detectedAt < cutoff) :
      Moves s (.cleanupDelete cutoff statuses (a :: got)) answer
        ⟨s, some (.deleteRead a.id (some ⟨a, cutoff, statuses, got⟩)), none, none⟩
  | keeps {cutoff : ℤ} {statuses : List AnomalyStatus} {a : Anomaly} {got : List Anomaly}
      {answer : Answer} :
      Moves s (.cleanupDelete cutoff statuses (a :: got)) answer
        ⟨s, some (.cleanupDelete cutoff statuses got), none, none⟩

section Step

variable {s s' : State} {e : Event} {out : Outcome} {op : Op}

theorem moves_of_advance {s : Store} {answer : Answer} (h : advance s op answer = some out) :
    Moves s op answer out := by
  cases op with
  | saveRead a revision =>
    cases answer <;> cases h
    · exact .found
    · exact .failed rfl
  | saveWrite a revision existing =>
    simp only [advance] at h
    split at h <;> cases h
    · cases answer
      · exact .wrote
      · exact .landed
    · exact .refused
  | saveUnindex a existing =>
    cases h
    exact .unindexed
  | saveIndex a existing =>
    cases h
    refine .indexed fun op hop => ?_
    cases answer with
    | done =>
      simp only [ite_none_right_eq_some, Option.some.injEq] at hop
      exact hop.2.symm
    | failed landed => cases hop
  | saveType a =>
    cases h
    exact .typed
  | updateRead id status reviewedBy notes now =>
    cases answer <;> cases h
    · refine .updated fun op hop => ?_
      obtain ⟨a, -, rfl⟩ := map_eq_some_iff.1 hop
      exact ⟨_, rfl⟩
    · exact .failed rfl
  | deleteRead id caller =>
    cases answer with
    | done =>
      simp only [advance] at h
      split at h <;> cases h
      · exact .returned
      · exact .read ‹_›
    | failed landed =>
      cases h
      exact .returned
  | deleteStatus a caller =>
    cases h
    exact .statusDropped
  | deleteType a caller =>
    cases h
    exact .typeDropped
  | deleteRecord id caller =>
    simp only [advance] at h
    split at h <;> cases h
    · exact .dropped
    · cases answer
      · exact absurd rfl ‹_›
      · exact .kept
  | cleanupList cutoff statuses =>
    cases statuses with
    | nil =>
      cases h
      exact .cleaned
    | cons status statuses =>
      cases answer <;> simp only [advance, Option.some.injEq, reduceCtorEq] at h
      subst h
      exact .skipped
  | cleanupRead cutoff statuses unread got =>
    cases unread <;> cases h
    · exact .allRead
    refine .readOne fun a ha => ?_
    cases answer with
    | done => exact mem_toList.1 ha
    | failed landed => cases ha
  | cleanupDelete cutoff statuses got =>
    cases got <;> simp only [advance] at h
    · cases h
      exact .allDeleted
    · split at h <;> cases h
      · exact .deletes ‹_›
      · exact .keeps

/-- What a step does: an operation starts, makes a call, or is gone. Only a call that failed
has an answer other than `done`. -/
theorem step_cases (h : step s e = some s') : (∃ i call, e = .begin i call ∧ s.ops.lookup i = none ∧
      s' = { s with ops := s.ops.insert i call.op }) ∨
    (∃ i op answer out, s.ops.lookup i = some op ∧ Moves s.store op answer out ∧
      s' = s.after i out ∧ (alone s e → answer = .done) ∧
      (careful s e → ∀ a, out.written = some a → a.isResolved ∨ a.id ∉ s.settled)) ∨
    ∃ i, e = .crash i ∧ s' = { s with ops := s.ops.erase i } := by
  cases e with
  | begin i call =>
    simp only [step] at h
    split at h <;> cases h
    exact .inl ⟨i, call, rfl, ‹_›, rfl⟩
  | act i answer =>
    obtain ⟨op, hop, h⟩ := bind_eq_some_iff.1 h
    obtain ⟨out, hout, rfl⟩ := map_eq_some_iff.1 h
    refine .inr (.inl ⟨i, op, answer, out, hop, moves_of_advance hout, rfl, ?_, ?_⟩)
    · intro halone
      cases answer with
      | done => rfl
      | failed landed => simp [alone] at halone
    · intro hcareful a ha
      simpa [careful, hop, hout, ha] using hcareful
  | list i keys =>
    obtain ⟨op, hop, h⟩ := bind_eq_some_iff.1 h
    obtain ⟨out, hout, rfl⟩ := map_eq_some_iff.1 h
    have hmoves : Moves s.store op .done out := by
      unfold listing at hout
      split at hout
      · split at hout <;> cases hout
        exact .listed ‹_›
      · cases hout
    refine .inr (.inl ⟨i, op, .done, out, hop, hmoves, rfl, fun _ => rfl, ?_⟩)
    intro _ a ha
    unfold listing at hout
    split at hout
    · split at hout <;> cases hout
      cases ha
    · cases hout
  | crash i =>
    simp only [step] at h
    split at h <;> cases h
    exact .inr (.inr ⟨i, rfl, rfl⟩)

theorem forall_lookup_after {P Q : Op → Prop} {i : ℕ}
    (hops : ∀ j op, s.ops.lookup j = some op → P op) (hPQ : ∀ op, P op → Q op)
    (hnext : ∀ op, out.next = some op → Q op) :
    ∀ j op, (s.after i out).ops.lookup j = some op → Q op := by
  intro j op h
  rcases lookup_setSlot_eq_some h with ⟨-, hop⟩ | ⟨-, hop⟩
  · exact hnext op hop
  · exact hPQ op (hops j op hop)

end Step

/-! ## What `Cleanup` deletes was detected before its cutoff -/

section Timely

/-- The record a deletion of `Cleanup` read was detected before the cutoff. -/
def Op.Timely (op : Op) : Prop := ∀ c, op.caller = some c → c.read.detectedAt < c.cutoff

theorem Op.timely_of_caller {op : Op} (h : op.caller = none) : op.Timely := by
  intro c hc
  rw [h] at hc
  cases hc

theorem resume_caller {caller : Option Caller} {op : Op} (h : resume caller = some op) :
    op.caller = none := by
  cases caller <;> cases h
  rfl

theorem Call.caller (call : Call) : call.op.caller = none := by cases call <;> rfl

variable {s : Store} {op : Op} {answer : Answer} {out : Outcome}

/-- A call goes on with the deletion it belongs to, starts one of a record detected before the
cutoff, or is part of none afterwards. -/
theorem Moves.timely (h : Moves s op answer out) (hop : op.Timely) :
    ∀ op', out.next = some op' → op'.Timely := by
  intro op' hnext
  cases h with
  | failed | refused | landed | typed | cleaned => cases hnext
  | found | wrote | unindexed | skipped | listed | allRead | readOne | allDeleted | keeps =>
    cases hnext
    exact Op.timely_of_caller rfl
  | indexed h =>
    obtain rfl := h op' hnext
    exact Op.timely_of_caller rfl
  | updated h =>
    obtain ⟨a, rfl⟩ := h op' hnext
    exact Op.timely_of_caller rfl
  | returned | dropped | kept => exact Op.timely_of_caller (resume_caller hnext)
  | read | statusDropped | typeDropped =>
    cases hnext
    exact hop
  | deletes h =>
    cases hnext
    intro c hc
    cases hc
    exact h

theorem Moves.removed_eq (h : Moves s op answer out) {r : Removal} (hr : out.removed = some r) :
    ∃ c, op.caller = some c ∧ r = ⟨c.read, c.cutoff⟩ := by
  cases h with
  | dropped =>
    obtain ⟨c, hc, rfl⟩ := map_eq_some_iff.1 hr
    exact ⟨c, hc, rfl⟩
  | _ => cases hr

end Timely

/-- Deletions in flight and made are of records detected before the cutoff. -/
structure TimelyState (s : State) : Prop where
  ops : ∀ i op, s.ops.lookup i = some op → op.Timely
  removed : ∀ r ∈ s.removed, r.read.detectedAt < r.cutoff

theorem TimelyState.initial : TimelyState .initial where
  ops i op h := by
    cases h
  removed r h := by cases h

theorem TimelyState.step (s : State) (e : Event) (s' : State) (hs : TimelyState s)
    (h : step s e = some s') : TimelyState s' := by
  rcases step_cases h with ⟨i, call, -, -, rfl⟩ | ⟨i, op, _, _, hop, hmoves, rfl, -, -⟩ |
    ⟨i, -, rfl⟩
  · exact { hs with
      ops := forall_lookup_insert (Op.timely_of_caller call.caller) hs.ops }
  · have hop' : op.Timely := hs.ops i op hop
    refine ⟨forall_lookup_after hs.ops (fun _ h => h) (hmoves.timely hop'), fun r hr => ?_⟩
    rcases mem_append.1 hr with hr | hr
    · exact hs.removed r hr
    · obtain ⟨c, hc, rfl⟩ := hmoves.removed_eq (mem_toList.1 hr)
      exact hop' c hc
  · exact { hs with ops := forall_lookup_erase hs.ops }

/-! ## What `Cleanup` reads is resolved

`K` is what is known of an identifier while `Cleanup` reads: whatever record it has is
resolved. -/

/-- A `Cleanup` that waits for a deletion has read resolved records. -/
structure Caller.Sound (c : Caller) : Prop where
  read : c.read.isResolved = true
  got : ∀ a ∈ c.got, a.isResolved = true
  statuses : c.statuses ⊆ cleanupStatuses

/-- A `Cleanup` has read resolved records, and will read identifiers of which `K` holds. -/
def Op.Sound (K : AnomalyId → Prop) : Op → Prop
  | deleteRead _ caller | deleteStatus _ caller | deleteType _ caller | deleteRecord _ caller =>
    ∀ c, caller = some c → c.Sound
  | cleanupList _ statuses => statuses ⊆ cleanupStatuses
  | cleanupRead _ statuses unread got =>
    statuses ⊆ cleanupStatuses ∧ (∀ text ∈ unread, ∃ id : AnomalyId, id.1 = text ∧ K id) ∧
      ∀ a ∈ got, a.isResolved = true
  | cleanupDelete _ statuses got => statuses ⊆ cleanupStatuses ∧ ∀ a ∈ got, a.isResolved = true
  | _ => True

section Sound

variable {s : Store} {op : Op} {answer : Answer} {out : Outcome} {K K' : AnomalyId → Prop}

theorem Op.Sound.mono (h : op.Sound K) (hK : ∀ id, K id → K' id) : op.Sound K' := by
  cases op with
  | cleanupRead cutoff statuses unread got =>
    refine ⟨h.1, fun text htext => ?_, h.2.2⟩
    obtain ⟨id, hid, hknown⟩ := h.2.1 text htext
    exact ⟨id, hid, hK id hknown⟩
  | _ => exact h

theorem Call.sound (call : Call) : call.op.Sound K := by
  cases call with
  | delete id => exact fun c hc => nomatch hc
  | cleanup cutoff => exact List.Subset.refl _
  | _ => trivial

theorem resume_sound (h : ∀ c, caller = some c → c.Sound)
    (hop : resume caller = some op) : op.Sound K := by
  cases caller <;> cases hop
  exact ⟨(h _ rfl).statuses, (h _ rfl).got⟩

theorem Op.Sound.caller (h : op.Sound K) {c : Caller} (hc : op.caller = some c) : c.Sound := by
  cases op with
  | deleteRead | deleteStatus | deleteType | deleteRecord => exact h c hc
  | _ => cases hc

/-- **A call keeps `Cleanup` sound**, where the records it may read are resolved and the keys it
lists are of known identifiers. What is known may change with the bucket. -/
theorem Moves.sound (h : Moves s op answer out) (hop : op.Sound K)
    (hread : ∀ id a, K id → s.get id = some a → a.isResolved)
    (hlist : (∃ cutoff statuses, op = .cleanupList cutoff statuses) →
      ∀ status id, status ∈ cleanupStatuses → .status status id ∈ s.index → K id)
    (hstay : out.store = s → ∀ id, K id → K' id) :
    ∀ op', out.next = some op' → op'.Sound K' := by
  intro op' hnext
  cases h with
  | failed | refused | landed | typed | cleaned => cases hnext
  | found | wrote | unindexed =>
    cases hnext
    trivial
  | indexed h =>
    obtain rfl := h op' hnext
    trivial
  | updated h =>
    obtain ⟨a, rfl⟩ := h op' hnext
    trivial
  | returned | dropped | kept => exact resume_sound hop hnext
  | read | statusDropped | typeDropped =>
    cases hnext
    exact hop
  | skipped =>
    cases hnext
    exact (cons_subset.1 hop).2
  | listed hperm =>
    cases hnext
    obtain ⟨hstatus, hstatuses⟩ := cons_subset.1 hop
    refine ⟨hstatuses, fun text htext => ?_, fun a ha => nomatch ha⟩
    obtain ⟨id, hid, rfl⟩ := mem_idsByStatus.1 htext
    exact ⟨id, rfl, hstay rfl id (hlist ⟨_, _, rfl⟩ _ id hstatus (hperm.mem_iff.1 hid))⟩
  | allRead =>
    cases hnext
    exact ⟨hop.1, hop.2.2⟩
  | @readOne _ _ text _ _ _ _ hfound =>
    cases hnext
    obtain ⟨hstatuses, hunread, hgot⟩ := hop
    refine ⟨hstatuses, fun text' htext => ?_, fun a ha => ?_⟩
    · obtain ⟨id, hid, hknown⟩ := hunread text' (mem_cons_of_mem _ htext)
      exact ⟨id, hid, hstay rfl id hknown⟩
    · rcases mem_append.1 ha with ha | ha
      · exact hgot a ha
      obtain ⟨id, rfl, hknown⟩ := hunread text mem_cons_self
      have hget := hfound a ha
      rw [find_coe] at hget
      exact hread id a hknown hget
  | allDeleted =>
    cases hnext
    exact hop.1
  | deletes =>
    cases hnext
    obtain ⟨hstatuses, hgot⟩ := hop
    intro c hc
    cases hc
    exact ⟨hgot _ mem_cons_self, fun a ha => hgot a (mem_cons_of_mem _ ha), hstatuses⟩
  | keeps =>
    cases hnext
    exact ⟨hop.1, fun a ha => hop.2 a (mem_cons_of_mem _ ha)⟩

theorem Moves.removed_resolved (h : Moves s op answer out) (hop : op.Sound K) {r : Removal}
    (hr : out.removed = some r) : r.read.isResolved := by
  obtain ⟨c, hc, rfl⟩ := h.removed_eq hr
  exact (hop.caller hc).read

end Sound

/-! ## Settled anomalies that stay resolved -/

/-- A save that has written a record of a status `Cleanup` lists has settled its identifier. -/
def Op.Marked (settled : List AnomalyId) : Op → Prop
  | saveUnindex a _ | saveIndex a _ => a.status ∈ cleanupStatuses → a.id ∈ settled
  | _ => True

section Marked

variable {s : Store} {op : Op} {answer : Answer} {out : Outcome} {settled : List AnomalyId}

theorem Op.Marked.mono {settled' : List AnomalyId} (h : op.Marked settled)
    (hsub : settled ⊆ settled') : op.Marked settled' := by
  cases op with
  | saveUnindex | saveIndex => exact fun hstatus => hsub (h hstatus)
  | _ => trivial

theorem Call.marked (call : Call) : call.op.Marked settled := by cases call <;> trivial

theorem resume_marked (h : resume caller = some op) :
    op.Marked settled := by
  cases caller <;> cases h
  trivial

variable {id : AnomalyId}

theorem mem_settles {written : Option Anomaly} :
    id ∈ settles written ↔ ∃ a, written = some a ∧ a.status ∈ cleanupStatuses ∧ a.id = id := by
  cases written with
  | none => simp [settles]
  | some a =>
    by_cases h : a.status ∈ cleanupStatuses
    · simp [settles, h, eq_comm]
    · simp [settles, h]

theorem Moves.marked (h : Moves s op answer out) (hop : op.Marked settled) :
    ∀ op', out.next = some op' → op'.Marked (settles out.written ++ settled) := by
  intro op' hnext
  cases h with
  | failed | refused | landed | typed | cleaned => cases hnext
  | wrote =>
    cases hnext
    exact fun hstatus => mem_append_left _ (mem_settles.2 ⟨_, rfl, hstatus, rfl⟩)
  | unindexed =>
    cases hnext
    exact hop
  | indexed h =>
    obtain rfl := h op' hnext
    trivial
  | updated h =>
    obtain ⟨a, rfl⟩ := h op' hnext
    trivial
  | returned | dropped | kept => exact resume_marked hnext
  | found | read | statusDropped | typeDropped | skipped | listed | allRead | readOne
  | allDeleted | deletes | keeps =>
    cases hnext
    trivial

theorem mem_unindex (h : other ∈ (s.unindex key answer).index) : other ∈ s.index := by
  unfold unindex at h
  split at h
  · exact h
  · split at h
    · exact (mem_dropIndex.1 h).1
    · exact h

theorem mem_reindex {key : IndexKey} (h : other ∈ (s.reindex key answer).index) :
    other = key ∨ other ∈ s.index := by
  unfold reindex at h
  split at h
  · exact mem_putIndex.1 h
  · exact .inr h

@[simp] theorem get_unindex : (s.unindex key answer).get id = s.get id := by
  unfold unindex
  split
  · rfl
  · split <;> rfl

@[simp] theorem get_reindex {key : IndexKey} : (s.reindex key answer).get id = s.get id := by
  unfold reindex
  split <;> rfl

/-- A status key is there from before, or of a save that has written its record. -/
theorem Moves.mem_index (h : Moves s op answer out) (hop : op.Marked settled)
    {status : AnomalyStatus} (hstatus : status ∈ cleanupStatuses)
    (hmem : .status status id ∈ out.store.index) : .status status id ∈ s.index ∨ id ∈ settled := by
  cases h with
  | unindexed | statusDropped | typeDropped => exact .inl (mem_unindex hmem)
  | indexed =>
    rcases mem_reindex hmem with heq | hmem
    · cases heq
      exact .inr (hop hstatus)
    · exact .inl hmem
  | typed =>
    rcases mem_reindex hmem with heq | hmem
    · cases heq
    · exact .inl hmem
  | _ => exact .inl hmem

/-- A record is there from before, this call having written none in its place, or it is the
one the call wrote. -/
theorem Moves.get_eq (h : Moves s op answer out) {a : Anomaly} (hget : out.store.get id = some a) :
    (s.get id = some a ∧ ∀ b, out.written = some b → b.id ≠ id) ∨ out.written = some a := by
  cases h with
  | @wrote b | @landed b =>
    by_cases hid : id = b.id
    · subst hid
      rw [get_putRecord_self] at hget
      exact .inr hget
    · rw [get_putRecord_ne hid] at hget
      refine .inl ⟨hget, fun c hc => ?_⟩
      cases hc
      exact Ne.symm hid
  | unindexed | statusDropped | typeDropped =>
    rw [get_unindex] at hget
    exact .inl ⟨hget, fun b hb => nomatch hb⟩
  | indexed | typed =>
    rw [get_reindex] at hget
    exact .inl ⟨hget, fun b hb => nomatch hb⟩
  | @dropped id' =>
    by_cases hid : id = id'
    · subst hid
      rw [get_dropRecord_self] at hget
      cases hget
    · rw [get_dropRecord_ne hid] at hget
      exact .inl ⟨hget, fun b hb => nomatch hb⟩
  | _ => exact .inl ⟨hget, fun b hb => nomatch hb⟩

end Marked

/-- Settled anomalies are resolved, and the keys `Cleanup` lists are of settled ones. -/
structure CarefulState (s : State) : Prop where
  resolved : ∀ id a, id ∈ s.settled → s.store.get id = some a → a.isResolved = true
  indexed : ∀ status id, status ∈ cleanupStatuses → .status status id ∈ s.store.index →
    id ∈ s.settled
  sound : ∀ i op, s.ops.lookup i = some op → op.Sound (· ∈ s.settled)
  marked : ∀ i op, s.ops.lookup i = some op → op.Marked s.settled
  removed : ∀ r ∈ s.removed, r.read.isResolved = true

theorem CarefulState.initial : CarefulState .initial where
  resolved _ _ h := by cases h
  indexed _ _ _ h := by cases h
  sound i op h := by
    cases h
  marked i op h := by
    cases h
  removed _ h := by cases h

theorem CarefulState.step (s : State) (e : Event) (s' : State) (hs : CarefulState s)
    (hcareful : careful s e) (h : step s e = some s') : CarefulState s' := by
  rcases step_cases h with ⟨i, call, -, -, rfl⟩ |
    ⟨i, op, answer, out, hop, hmoves, rfl, -, hwritten⟩ | ⟨i, -, rfl⟩
  · exact { hs with
      sound := forall_lookup_insert call.sound hs.sound
      marked := forall_lookup_insert call.marked hs.marked }
  · have hsub : s.settled ⊆ settles out.written ++ s.settled := subset_append_right _ _
    have hsound := hs.sound i op hop
    have hmarked := hs.marked i op hop
    refine ⟨fun id a hid hget => ?_, fun status id hstatus hmem => ?_, ?_, ?_, fun r hr => ?_⟩
    · rcases hmoves.get_eq hget with ⟨hbefore, hother⟩ | hnew
      · rcases mem_append.1 hid with hid | hid
        · obtain ⟨b, hb, -, hbid⟩ := mem_settles.1 hid
          exact absurd hbid (hother b hb)
        · exact hs.resolved id a hid hbefore
      · -- the call wrote the record: resolved, or of an identifier that was not settled
        rcases mem_append.1 hid with hid | hid
        · obtain ⟨b, hb, hstatus, -⟩ := mem_settles.1 hid
          obtain rfl : b = a := Option.some.inj (hb.symm.trans hnew)
          exact isResolved_of_cleanup hstatus
        · rcases hwritten hcareful a hnew with hresolved | hfresh
          · exact hresolved
          · rw [id_of_get hget] at hfresh
            exact absurd hid hfresh
    · rcases hmoves.mem_index hmarked hstatus hmem with hbefore | hsettled
      · exact hsub (hs.indexed status id hstatus hbefore)
      · exact hsub hsettled
    · exact forall_lookup_after hs.sound (fun op h => h.mono fun _ hid => hsub hid)
        (hmoves.sound hsound hs.resolved (fun _ => hs.indexed) fun _ _ hid => hsub hid)
    · exact forall_lookup_after hs.marked (fun op h => h.mono hsub) (hmoves.marked hmarked)
    · rcases mem_append.1 hr with hr | hr
      · exact hs.removed r hr
      · exact hmoves.removed_resolved hsound (mem_toList.1 hr)
  · exact { hs with
      sound := forall_lookup_erase hs.sound
      marked := forall_lookup_erase hs.marked }

/-! ## Operations that neither fail nor overlap -/

/-- The status keys of an identifier: the one of its record's status, if it has a record. -/
def Store.Exact (s : Store) (id : AnomalyId) : Prop :=
  ∀ status, .status status id ∈ s.index ↔ ∃ a, s.get id = some a ∧ a.status = status

/-- The status keys between two calls of an operation: exact for the other identifiers. -/
def Op.Consistent (s : Store) : Op → Prop
  | saveWrite a _ existing => (∀ id, s.Exact id) ∧ existing = s.get a.id
  | saveUnindex a existing =>
    (∀ id, id ≠ a.id → s.Exact id) ∧ s.get a.id = some a ∧
      ∀ status, .status status a.id ∈ s.index → ∃ e, existing = some e ∧ e.status = status
  | saveIndex a _ =>
    (∀ id, id ≠ a.id → s.Exact id) ∧ s.get a.id = some a ∧
      ∀ status, .status status a.id ∈ s.index → status = a.status
  | deleteStatus a _ => (∀ id, s.Exact id) ∧ s.get a.id = some a
  | deleteType a _ => (∀ id, id ≠ a.id → s.Exact id) ∧ ∀ status, .status status a.id ∉ s.index
  | deleteRecord id _ =>
    (∀ other, other ≠ id → s.Exact other) ∧ ∀ status, .status status id ∉ s.index
  | _ => ∀ id, s.Exact id

/-- The same, whether the operation goes on or has returned. -/
def Store.Rests (s : Store) : Option Op → Prop
  | some op => op.Consistent s
  | none => ∀ id, s.Exact id

variable {s s' : Store} {op : Op} {out : Outcome} {id : AnomalyId}

/-- Exactness depends on the status keys and the record of the identifier. -/
theorem Store.Exact.congr (h : s.Exact id)
    (hindex : ∀ status, .status status id ∈ s'.index ↔ .status status id ∈ s.index)
    (hget : s'.get id = s.get id) : s'.Exact id := by
  intro status
  rw [hindex, hget]
  exact h status

theorem mem_unindex_done :
    other ∈ (s.unindex key .done).index ↔ other ∈ s.index ∧ key ≠ some other := by
  cases key with
  | none => simp [unindex]
  | some key => simp [unindex, Answer.landed, eq_comm]

theorem mem_reindex_done :
    other ∈ (s.reindex key .done).index ↔ other = key ∨ other ∈ s.index := by
  simp [reindex, Answer.landed]

theorem rests_resume (h : ∀ id, s.Exact id) (caller : Option Caller) : s.Rests (resume caller) := by
  cases caller <;> exact h

theorem Call.consistent (h : ∀ id, s.Exact id) (call : Call) : call.op.Consistent s := by
  cases call <;> exact h

theorem staleKey_ne (h : id ≠ a.id)
    (status : AnomalyStatus) : staleKey a existing ≠ some (.status status id) := by
  intro hkey
  cases existing with
  | none => cases hkey
  | some e =>
    simp only [staleKey, ite_none_left_eq_some, Option.some.injEq, IndexKey.status.injEq]
      at hkey
    exact h hkey.2.2.symm

/-- **A call that succeeds leaves the status keys as the operation's next call expects them.** -/
theorem Moves.consistent (h : Moves s op .done out) (hop : op.Consistent s) :
    out.store.Rests out.next := by
  cases h with
  | found => exact ⟨hop, rfl⟩
  | refused => exact hop.1
  | @wrote a _ existing =>
    obtain ⟨hexact, rfl⟩ := hop
    refine ⟨fun id hid => ?_, get_putRecord_self, fun status hstatus => ?_⟩
    · exact (hexact id).congr (fun _ => Iff.rfl) (get_putRecord_ne hid)
    · exact (hexact a.id status).1 hstatus
  | @unindexed a existing =>
    obtain ⟨hothers, hget, hown⟩ := hop
    refine ⟨fun id hid => ?_, get_unindex.trans hget, fun status hstatus => ?_⟩
    · refine (hothers id hid).congr (fun status => ?_) get_unindex
      rw [mem_unindex_done]
      exact and_iff_left (staleKey_ne hid status)
    · obtain ⟨hbefore, hfresh⟩ := mem_unindex_done.1 hstatus
      obtain ⟨e, rfl, rfl⟩ := hown status hbefore
      by_contra hne
      exact hfresh (if_neg hne)
  | @indexed a _ _ next hnext =>
    obtain ⟨hothers, hget, hown⟩ := hop
    have hexact : ∀ id, (s.reindex (.status a.status a.id) .done).Exact id := by
      intro id
      by_cases hid : id = a.id
      · subst hid
        intro status
        rw [mem_reindex_done, get_reindex, hget]
        constructor
        · rintro (heq | hbefore)
          · cases heq
            exact ⟨a, rfl, rfl⟩
          · exact ⟨a, rfl, (hown status hbefore).symm⟩
        · rintro ⟨b, hb, rfl⟩
          cases hb
          exact .inl rfl
      · refine (hothers id hid).congr (fun status => ?_) get_reindex
        rw [mem_reindex_done]
        refine or_iff_right fun heq => ?_
        cases heq
        exact hid rfl
    cases next with
    | none => exact hexact
    | some op =>
      obtain rfl := hnext op rfl
      exact hexact
  | typed =>
    intro id
    refine (hop id).congr (fun status => ?_) get_reindex
    rw [mem_reindex_done]
    exact or_iff_right nofun
  | @updated _ _ _ _ _ next hnext =>
    cases next with
    | none => exact hop
    | some op =>
      obtain ⟨a, rfl⟩ := hnext op rfl
      exact hop
  | returned => exact rests_resume hop _
  | read hget =>
    refine ⟨hop, ?_⟩
    rw [id_of_get hget]
    exact hget
  | @statusDropped a =>
    obtain ⟨hexact, hget⟩ := hop
    refine ⟨fun id hid => ?_, fun status hstatus => ?_⟩
    · refine (hexact id).congr (fun status => ?_) get_unindex
      rw [mem_unindex_done]
      refine and_iff_left fun heq => ?_
      cases heq
      exact hid rfl
    · obtain ⟨hbefore, hother⟩ := mem_unindex_done.1 hstatus
      obtain ⟨b, hb, rfl⟩ := (hexact a.id status).1 hbefore
      rw [hget] at hb
      cases hb
      exact hother rfl
  | @typeDropped a =>
    obtain ⟨hothers, hown⟩ := hop
    refine ⟨fun id hid => ?_, fun status hstatus => hown status (mem_unindex hstatus)⟩
    refine (hothers id hid).congr (fun status => ?_) get_unindex
    rw [mem_unindex_done]
    exact and_iff_left nofun
  | @dropped id caller =>
    obtain ⟨hothers, hown⟩ := hop
    refine rests_resume (fun other => ?_) caller
    by_cases hother : other = id
    · subst hother
      intro status
      rw [get_dropRecord_self]
      refine iff_of_false (hown status) ?_
      rintro ⟨a, ha, -⟩
      cases ha
    · exact (hothers other hother).congr (fun _ => Iff.rfl) (get_dropRecord_ne hother)
  | cleaned | listed | allRead | readOne | allDeleted | deletes | keeps => exact hop

/-- One operation at a time, its status keys as it expects them; `Cleanup` has read resolved
records. -/
structure AloneState (s : State) : Prop where
  one : ∀ i j op op', s.ops.lookup i = some op → s.ops.lookup j = some op' → i = j
  consistent : ∀ i op, s.ops.lookup i = some op → op.Consistent s.store
  rests : (∀ i, s.ops.lookup i = none) → ∀ id, s.store.Exact id
  sound : ∀ i op, s.ops.lookup i = some op →
    op.Sound fun id => ∀ a, s.store.get id = some a → a.isResolved = true
  removed : ∀ r ∈ s.removed, r.read.isResolved = true

theorem Store.exact_empty (id : AnomalyId) : Store.empty.Exact id := by
  intro _
  refine iff_of_false not_mem_nil ?_
  rintro ⟨a, ha, -⟩
  cases ha

theorem AloneState.initial : AloneState .initial where
  one i j op op' h := by
    cases h
  consistent i op h := by
    cases h
  rests _ := exact_empty
  sound i op h := by
    cases h
  removed _ h := by cases h

theorem lookup_of_isEmpty {s : State} (h : s.ops.entries.isEmpty) (i : ℕ) :
    s.ops.lookup i = none := by
  rw [AList.lookup_eq_none, AList.mem_keys, AList.keys, List.isEmpty_iff.1 h]
  exact not_mem_nil

/-- An operation that lists has exact status keys to list. -/
theorem Op.Consistent.exact {s : Store} {op : Op} (h : op.Consistent s)
    (hlist : ∃ cutoff statuses, op = .cleanupList cutoff statuses) : ∀ id, s.Exact id := by
  obtain ⟨cutoff, statuses, rfl⟩ := hlist
  exact h

theorem AloneState.step (s : State) (e : Event) (s' : State) (hs : AloneState s)
    (halone : alone s e) (h : step s e = some s') : AloneState s' := by
  rcases step_cases h with ⟨i, call, rfl, -, rfl⟩ |
    ⟨i, op, answer, out, hop, hmoves, rfl, hdone, -⟩ | ⟨i, rfl, rfl⟩
  · have hnone : ∀ j, s.ops.lookup j = none := lookup_of_isEmpty halone
    have honly : ∀ j op, (s.ops.insert i call.op).lookup j = some op → j = i ∧ op = call.op := by
      intro j op hj
      by_cases hji : j = i
      · subst hji
        rw [AList.lookup_insert] at hj
        exact ⟨rfl, (Option.some.inj hj).symm⟩
      · rw [AList.lookup_insert_ne hji, hnone] at hj
        cases hj
    refine ⟨fun j k op op' hj hk => ?_, fun j op hj => ?_, fun hall => ?_, fun j op hj => ?_,
      hs.removed⟩
    · rw [(honly j op hj).1, (honly k op' hk).1]
    · rw [(honly j op hj).2]
      exact call.consistent (hs.rests hnone)
    · have hi := hall i
      rw [AList.lookup_insert] at hi
      cases hi
    · rw [(honly j op hj).2]
      exact call.sound
  · obtain rfl := hdone halone
    have hconsistent := hs.consistent i op hop
    have hrests := hmoves.consistent hconsistent
    have hsound := hs.sound i op hop
    have honly : ∀ j op', (s.after i out).ops.lookup j = some op' → j = i ∧ out.next = some op' := by
      intro j op' hj
      rcases lookup_setSlot_eq_some hj with hj | ⟨hji, hj⟩
      · exact hj
      · exact absurd (hs.one j i op' op hj hop) hji
    refine ⟨fun j k op' op'' hj hk => ?_, fun j op' hj => ?_, fun hall => ?_, fun j op' hj => ?_,
      fun r hr => ?_⟩
    · rw [(honly j op' hj).1, (honly k op'' hk).1]
    · have hnext := (honly j op' hj).2
      rw [hnext] at hrests
      exact hrests
    · have hnext : out.next = none := lookup_setSlot_self.symm.trans (hall i)
      rw [hnext] at hrests
      exact hrests
    · refine hmoves.sound hsound (fun id a hknown hget => hknown a hget) ?_ ?_ op' (honly j op' hj).2
      · intro hlist status id hstatus hmem a hget
        obtain ⟨b, hb, rfl⟩ := (hconsistent.exact hlist id status).1 hmem
        obtain rfl : b = a := Option.some.inj (hb.symm.trans hget)
        exact isResolved_of_cleanup hstatus
      · intro hstore id hknown a hget
        have hget' : out.store.get id = some a := hget
        rw [hstore] at hget'
        exact hknown a hget'
    · rcases mem_append.1 hr with hr | hr
      · exact hs.removed r hr
      · exact hmoves.removed_resolved hsound (mem_toList.1 hr)
  · cases halone

/-! ## Cleanup and queries -/

/-- **A query by status over exact keys** answers each stored anomaly of the status, once. -/
theorem getByStatus_exact {s : Store} (h : ∀ id, s.Exact id) {keys : List IndexKey}
    (hkeys : keys.Perm s.index) (status : AnomalyStatus) :
    (∀ a, a ∈ s.getByStatus keys status ↔ s.get a.id = some a ∧ a.status = status) ∧
      (s.getByStatus keys status).Nodup := by
  refine ⟨fun a => ?_, ?_⟩
  · simp only [getByStatus, mem_filterMap, mem_idsByStatus]
    constructor
    · rintro ⟨text, ⟨id, hid, rfl⟩, hget⟩
      rw [find_coe] at hget
      obtain ⟨b, hb, hstatus⟩ := (h id status).1 (hkeys.mem_iff.1 hid)
      obtain rfl : b = a := Option.some.inj (hb.symm.trans hget)
      rw [id_of_get hget]
      exact ⟨hget, hstatus⟩
    · rintro ⟨hget, hstatus⟩
      have hmem : .status status a.id ∈ s.index := (h a.id status).2 ⟨a, hget, hstatus⟩
      exact ⟨a.id.1, ⟨a.id, hkeys.mem_iff.2 hmem, rfl⟩, find_coe a.id ▸ hget⟩
  · refine (nodup_idsByStatus (hkeys.nodup_iff.2 s.nodup) status).filterMap ?_
    intro text _ a ha ha'
    unfold find at ha ha'
    split at ha
    · split at ha'
      · have hid := (id_of_get ha).symm.trans (id_of_get ha')
        exact congrArg Subtype.val hid
      · cases ha'
    · cases ha

/-- **What `Cleanup` deletes.** Whatever fails, crashes or overlaps, a record `Cleanup` deletes
was read with a detection time before the cutoff. It was read with a resolved status too, in a
run in which no anomaly settled in a status `Cleanup` lists is written as unresolved, and in a
run in which nothing fails or overlaps; in the latter a query by status at rest is exact. -/
theorem cleanup_deletes_resolved {es : List Event} {s : State}
    (h : run step .initial es = some s) :
    (∀ r ∈ s.removed, r.read.detectedAt < r.cutoff) ∧
    (Along step (fun s e => careful s e = true) .initial es ∨
      Along step (fun s e => alone s e = true) .initial es →
        ∀ r ∈ s.removed, r.read.isResolved = true) ∧
    (Along step (fun s e => alone s e = true) .initial es → (∀ i, s.ops.lookup i = none) →
      ∀ keys : List IndexKey, keys.Perm s.store.index → ∀ status,
        (∀ a, a ∈ s.store.getByStatus keys status ↔ s.store.get a.id = some a ∧ a.status = status) ∧
          (s.store.getByStatus keys status).Nodup) := by
  refine ⟨(run_invariant TimelyState.step .initial h).removed, ?_, ?_⟩
  · rintro (hcareful | halone)
    · exact (run_invariant_along CarefulState.step .initial hcareful h).removed
    · exact (run_invariant_along AloneState.step .initial halone h).removed
  · intro halone hrest keys hkeys status
    exact getByStatus_exact
      ((run_invariant_along AloneState.step .initial halone h).rests hrest) hkeys status

/-- A gap, detected at time 5. -/
def gap (status : AnomalyStatus) : Anomaly where
  id := ⟨"g", by decide⟩
  type := .semanticStructuralGap
  entityA := "a"
  entityB := "b"
  confidence := 1 / 2
  suggestion := some ⟨"a", "b", "inferred.related_to"⟩
  status := status
  detectedAt := 5
  reviewedAt := none
  reviewedBy := ""
  llmReasoning := ""
  reviewNotes := ""

def storeApplied : List Event :=
  [.begin 0 (.save (gap .applied)), .act 0 .done, .act 0 .done, .act 0 .done, .act 0 .done,
    .act 0 .done]

/-- A `Cleanup` with a cutoff after the detection, over the given keys, up to its deletion. -/
def cleanupOver (keys : List IndexKey) : List Event :=
  [.begin 0 (.cleanup 10), .list 0 keys, .act 0 .done, .act 0 .done, .act 0 .done, .act 0 .done,
    .act 0 .done, .act 0 .done, .act 0 .done]

/-- The applied gap is cleaned up, and the other two statuses have nothing. -/
def cleanApplied : List Event :=
  storeApplied ++ cleanupOver [.status .applied (gap .applied).id,
    .type .semanticStructuralGap (gap .applied).id] ++
    [.act 0 .done, .list 0 [], .act 0 .done, .act 0 .done, .list 0 [], .act 0 .done, .act 0 .done,
      .act 0 .done]

theorem cleanup_deletes_resolved_applied :
    ∃ s, run step .initial cleanApplied = some s ∧ s.removed = [⟨gap .applied, 10⟩] ∧
      (∀ r ∈ s.removed, r.read.detectedAt < r.cutoff) ∧
      (∀ r ∈ s.removed, r.read.isResolved = true) ∧
      ∀ a, ¬ (s.store.get a.id = some a ∧ a.status = .applied) := by
  refine exists_end (P := fun s => s.removed = [⟨gap .applied, 10⟩] ∧
    s.ops.entries.isEmpty ∧ s.store.index = []) (by decide +kernel) ?_
  rintro s hrun ⟨hremoved, hrest, hempty⟩
  have halone : Along step (fun s e => alone s e = true) .initial cleanApplied := by decide +kernel
  obtain ⟨htime, hresolved, hexact⟩ := cleanup_deletes_resolved hrun
  have hindex : [].Perm s.store.index := by rw [hempty]
  have hquery := (hexact halone (lookup_of_isEmpty hrest) [] hindex .applied).1
  exact ⟨hremoved, htime, hresolved (.inr halone), fun a ha => nomatch (hquery a).2 ha⟩

/-- The gap is put back for human review, and the deletion of its old index key fails. -/
def revertApplied : List Event :=
  [.begin 0 (.save (gap .humanReview)), .act 0 .done, .act 0 .done, .act 0 (.failed false),
    .act 0 .done]

/-- **An anomaly awaiting human review is deleted**: the index names it as applied. -/
theorem unresolved_anomaly_deleted :
    ∃ es s, run step .initial es = some s ∧ s.removed = [⟨gap .humanReview, 10⟩] ∧
      (gap .humanReview).isResolved = false ∧ s.store.get (gap .humanReview).id = none := by
  refine ⟨storeApplied ++ revertApplied ++ cleanupOver
    [.status .humanReview (gap .applied).id, .type .semanticStructuralGap (gap .applied).id,
      .status .applied (gap .applied).id], ?_⟩
  decide +kernel

end SemStreams.Inference
