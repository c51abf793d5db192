import SemStreams.GraphIndex.Component
/-!
# graph-index — the queries

A query validates its argument, passes the readiness gate and reads its answer
off the rows: the keys under a target's prefix, the keys of a predicate, or the
OUTGOING entry. `answers_equal_scan` compares these answers with a scan of the
entities in ENTITY_STATES.
-/

namespace SemStreams.GraphIndex

open SemStreams.Graph List Option

/-! ## The handlers -/

inductive QueryError
  | invalidRequest
  | graphStateResetRequired
  | indexNotReady
deriving DecidableEq

/-- `ensureQueryReady`. `probe` is what the gate says to the status computed on
the way, which matters only until the first build is done. -/
def ensureQueryReady (s : Component) (probe : Bool) : Except QueryError Unit :=
  if s.index.resetRequired then .error .graphStateResetRequired
  else if s.index.failedCount > 0 then .error .indexNotReady
  else if s.indexBootstrapped then .ok ()
  else if probe then .ok ()
  else .error .indexNotReady

/-- The order of the incoming edges: by source, then by predicate. -/
def incomingOrder (a b : IncomingEntry) : Prop :=
  a.fromEntityID < b.fromEntityID ∨ a.fromEntityID = b.fromEntityID ∧ a.predicate ≤ b.predicate

instance : DecidableRel incomingOrder := fun _ _ => inferInstanceAs (Decidable (_ ∨ _))

/-- The entries under the prefix of a target, each once. -/
def incomingEntries (rows : IndexRows) (entityID : String) : List IncomingEntry :=
  let keys := (rows.keys .incoming).filter (subjectSelects (incomingIndexPrefixFilter entityID))
  (keys.filterMap (incomingEntryFromKey · entityID)).dedup.insertionSort incomingOrder

/-- `handleQueryIncomingNATS`. -/
def handleQueryIncoming (s : Component) (probe : Bool) (entityID : String) :
    Except QueryError (List IncomingEntry) :=
  if entityID = "" ∨ validateEntityLiteralKey entityID = false ∨
      validateKVWildcardFilter (incomingIndexPrefixFilter entityID) ≠ .ok () then
    .error .invalidRequest
  else (ensureQueryReady s probe).map fun _ => incomingEntries s.index.rows entityID

/-- `handleQueryOutgoingNATS`: no entry is an empty answer. -/
def handleQueryOutgoing (s : Component) (probe : Bool) (entityID : String) :
    Except QueryError (List OutgoingEntry) :=
  if entityID = "" ∨ validateEntityLiteralKey entityID = false then .error .invalidRequest
  else (ensureQueryReady s probe).map fun _ => (s.index.rows.outgoing entityID).getD []

def queryPredicateEntityIDs (rows : IndexRows) (predicate : String) : List String :=
  let keys := (rows.keys .predicate).filter (subjectSelects (predicateIndexForwardFilter predicate))
  uniqueSortedStrings (keys.filterMap fun key =>
    (predicateMembershipFromKey key).bind fun m => if m.1 = predicate then some m.2 else none)

/-- `handleQueryPredicateNATS` without a value; a limit of `0` is none. -/
def handleQueryPredicate (s : Component) (probe : Bool) (predicate : String) (limit : ℕ) :
    Except QueryError (List String) :=
  if isValidPredicate predicate = false ∨
      validateKVWildcardFilter (predicateIndexForwardFilter predicate) ≠ .ok () then
    .error .invalidRequest
  else
    (ensureQueryReady s probe).map fun _ =>
      let entities := queryPredicateEntityIDs s.index.rows predicate
      if 0 < limit ∧ limit < entities.length then entities.take limit else entities

/-! ## What the rows answer -/

variable {v : Vocabulary} {rows : IndexRows} {id : String} {state : EntityState}

/-- **The incoming answer is the edges to the target among the rows.** -/
theorem mem_incomingEntries (hall : AllRows rows) (hid : isValidEntityID id) :
    x ∈ incomingEntries rows id ↔
      ∃ e : Edge, e.key ∈ rows.keys .incoming ∧ e.target = id ∧ x = ⟨e.source, e.predicate⟩ := by
  unfold incomingEntries
  rw [mem_insertionSort, mem_dedup, mem_filterMap]
  constructor
  · rintro ⟨key, hkey, hread⟩
    obtain ⟨hmem, hsel⟩ := mem_filter.1 hkey
    obtain ⟨_, hrow⟩ := hall .incoming key hmem
    cases hrow with
    | incoming e =>
      rw [prefixFilter_selects e hid, decide_eq_true_eq] at hsel
      rw [hsel, incomingEntryFromKey_key] at hread
      exact ⟨e, hmem, hsel.symm, (Option.some.inj hread).symm⟩
  · rintro ⟨e, hmem, htarget, rfl⟩
    refine ⟨e.key, mem_filter.2 ⟨hmem, ?_⟩, ?_⟩
    · rw [prefixFilter_selects e hid, decide_eq_true_eq]
      exact htarget.symm
    · rw [← htarget]
      exact incomingEntryFromKey_key e

theorem nodup_incomingEntries (rows : IndexRows) (id : String) : (incomingEntries rows id).Nodup :=
  (perm_insertionSort _ _).nodup_iff.2 (nodup_dedup _)

/-- **The predicate answer is the members among the rows.** -/
theorem mem_queryPredicateEntityIDs (hall : AllRows rows) (hp : isValidPredicate p) :
    id ∈ queryPredicateEntityIDs rows p ↔
      ∃ r : Membership, r.key ∈ rows.keys .predicate ∧ r.predicate = p ∧ r.entity = id := by
  unfold queryPredicateEntityIDs
  rw [mem_uniqueSortedStrings, mem_filterMap]
  constructor
  · rintro ⟨key, hkey, hread⟩
    obtain ⟨hmem, -⟩ := mem_filter.1 hkey
    obtain ⟨_, hrow⟩ := hall .predicate key hmem
    cases hrow with
    | predicate r =>
      rw [predicateMembershipFromKey_key, bind_some] at hread
      split at hread
      · rename_i hpred
        exact ⟨r, hmem, hpred, Option.some.inj hread⟩
      · cases hread
  · rintro ⟨r, hmem, hpred, rfl⟩
    refine ⟨r.key, mem_filter.2 ⟨hmem, ?_⟩, ?_⟩
    · rw [forwardFilter_selects r hp, decide_eq_true_eq]
      exact hpred.symm
    · rw [predicateMembershipFromKey_key, bind_some]
      exact if_pos hpred

variable {stored : Option EntityState}

/-- An edge of a settled entity is a relationship of its state. -/
theorem edge_mem_iff (e : Edge) (h : Settled v e.source (goalOf v e.source stored) rows) :
    e.key ∈ rows.keys .incoming ↔ ∃ state, stored = some state ∧
      ∃ t ∈ state.triples, t.relationshipTarget = some e.target ∧ t.predicate = e.predicate := by
  have howned : Owned .incoming e.source e.key := (RowOf.incoming e).owned e.source_ok
  rw [h.keys .incoming e.key howned]
  cases stored with
  | none =>
    constructor
    · exact fun hmem => absurd hmem not_mem_nil
    · rintro ⟨state, hstate, -⟩
      exact nomatch hstate
  | some state =>
    constructor
    · intro hmem
      obtain ⟨pair, hpair, hkey⟩ := List.mem_map.1 hmem
      obtain ⟨t, ht, htarget, hpred⟩ := mem_incomingByTarget.1 hpair
      refine ⟨state, rfl, t, ht, ?_⟩
      -- the tokens of the key give target and predicate back
      have htokens : tokens pair.1 ++ (tokens e.source ++ tokens (encodePredicateToken pair.2)) =
          tokens e.target ++ (tokens e.source ++ tokens (encodePredicateToken e.predicate)) := by
        have hboth := congrArg tokens hkey
        unfold Edge.key incomingIndexKey at hboth
        rw [tokens_append_dot, tokens_append_dot, tokens_append_dot, tokens_append_dot,
          append_assoc, append_assoc] at hboth
        exact hboth
      have hvalid := isValidEntityID_of_relationshipTarget htarget
      obtain ⟨h₁, h₂⟩ := append_inj htokens (by rw [tokens_length hvalid, tokens_length e.target_ok])
      have h₃ := tokens_injective (append_cancel_left h₂)
      rw [htarget, hpred, tokens_injective h₁, encodePredicateToken_injective h₃]
      exact ⟨rfl, rfl⟩
    · rintro ⟨_, hstate, t, ht, htarget, hpred⟩
      rw [← Option.some.inj hstate] at ht
      exact List.mem_map.2 ⟨(e.target, e.predicate), mem_incomingByTarget.2 ⟨t, ht, htarget, hpred⟩, rfl⟩

/-- A membership of a settled entity is a predicate of its state. -/
theorem membership_mem_iff (r : Membership) (h : Settled v r.entity (goalOf v r.entity stored) rows) :
    r.key ∈ rows.keys .predicate ↔
      ∃ state, stored = some state ∧ ∃ t ∈ state.triples, t.predicate = r.predicate := by
  have howned : Owned .predicate r.entity r.key := (RowOf.predicate r).owned r.entity_ok
  rw [h.keys .predicate r.key howned]
  cases stored with
  | none =>
    constructor
    · exact fun hmem => absurd hmem not_mem_nil
    · rintro ⟨state, hstate, -⟩
      exact nomatch hstate
  | some state =>
    constructor
    · intro hmem
      obtain ⟨q, hq, hkey⟩ := List.mem_map.1 hmem
      obtain ⟨t, ht, rfl⟩ := List.mem_map.1 hq
      refine ⟨state, rfl, t, ht, ?_⟩
      have htokens : tokens t.predicate ++ tokens r.entity = tokens r.predicate ++ tokens r.entity := by
        rw [← tokens_append_dot, ← tokens_append_dot]
        exact congrArg tokens hkey
      exact tokens_injective (append_cancel_right htokens)
    · rintro ⟨_, hstate, t, ht, hpred⟩
      rw [← Option.some.inj hstate] at ht
      exact List.mem_map.2 ⟨r.predicate, List.mem_map.2 ⟨t, ht, hpred⟩, rfl⟩

/-! ## The answers -/

/-- The relationships of a stored state, in its order. -/
def relationships (stored : Option EntityState) : List OutgoingEntry :=
  match stored with
  | none => []
  | some state => state.triples.filterMap fun t =>
    t.relationshipTarget.map fun target => ⟨target, t.predicate⟩

variable {coalescing : Bool} {s s' : Component} {es : List Event} {t : ℕ}

theorem handleQueryIncoming_eq (hid : isValidEntityID id) (probe : Bool) :
    handleQueryIncoming s probe id =
      (ensureQueryReady s probe).map fun _ => incomingEntries s.index.rows id := by
  have hne : id ≠ "" := by
    rintro rfl
    exact absurd hid (by decide)
  unfold handleQueryIncoming
  rw [validateEntityLiteralKey_eq, hid, incomingIndexPrefixFilter_ok hid]
  exact if_neg (by simp [hne])

theorem handleQueryOutgoing_eq (hid : isValidEntityID id) (probe : Bool) :
    handleQueryOutgoing s probe id =
      (ensureQueryReady s probe).map fun _ => (s.index.rows.outgoing id).getD [] := by
  have hne : id ≠ "" := by
    rintro rfl
    exact absurd hid (by decide)
  unfold handleQueryOutgoing
  rw [validateEntityLiteralKey_eq, hid]
  exact if_neg (by simp [hne])

theorem handleQueryPredicate_eq (hp : isValidPredicate p) (probe : Bool) :
    handleQueryPredicate s probe p 0 =
      (ensureQueryReady s probe).map fun _ => queryPredicateEntityIDs s.index.rows p := by
  unfold handleQueryPredicate
  rw [hp, predicateIndexForwardFilter_ok hp]
  exact if_neg (by simp)

theorem gate_open_of_report (h : Inv v s) (hstep : step v coalescing s (.report call) = some s')
    (hready : s'.ready ≠ s.ready) (probe : Bool) : ensureQueryReady s' probe = .ok () := by
  simp only [step] at hstep
  split at hstep
  · rename_i n target _
    cases hstep
    have hstatus : statusReady n target s.initialEnumerationComplete s.index.failedCount := by
      by_contra hnot
      exact hready (if_neg hnot)
    have hcount : ¬ s.index.failedCount > 0 := by
      unfold statusReady at hstatus
      simp only [Bool.and_eq_true, Bool.not_eq_true', decide_eq_false_iff_not] at hstatus
      exact hstatus.2
    have hboot : ((s.reportStatus n target).setCall call none).indexBootstrapped := by
      unfold Component.setCall Component.reportStatus
      rw [hstatus]
      simp
    have hreset : ((s.reportStatus n target).setCall call none).index.resetRequired = false := h.reset
    have hcount' : ¬ ((s.reportStatus n target).setCall call none).index.failedCount > 0 := hcount
    unfold ensureQueryReady
    rw [hreset, if_neg Bool.noConfusion, if_neg hcount', hboot]
    rfl
  · cases hstep

/-- **The index answers what a scan of the entities gives.** In every state a
run leads to, if the index was reported ready for a target and nothing was
written since, then a query that the gate lets through is answered as follows:
INCOMING with the distinct pairs of a source and a predicate such that the
source's state has a relationship of that predicate to the target, OUTGOING with
the entity's relationships, PREDICATE with the entities that have a triple of
the predicate. And the report itself opens the gate. -/
theorem answers_equal_scan (hrun : run (step v coalescing) init es = some s) (probe : Bool) :
    (t ∈ s.ready → s.log.length = t → (∀ target, isValidEntityID target = true →
        ∃ entries, handleQueryIncoming s probe target = (ensureQueryReady s probe).map (fun _ => entries) ∧
          entries.Nodup ∧
          ∀ source p, (⟨source, p⟩ : IncomingEntry) ∈ entries ↔ ∃ state, s.log.current source = some state ∧
            ∃ tr ∈ state.triples, tr.relationshipTarget = some target ∧ tr.predicate = p) ∧
      (∀ id, isValidEntityID id = true → handleQueryOutgoing s probe id =
          (ensureQueryReady s probe).map fun _ => relationships (s.log.current id)) ∧
      ∀ p, isValidPredicate p = true →
        ∃ entities, handleQueryPredicate s probe p 0 = (ensureQueryReady s probe).map (fun _ => entities) ∧
          entities.Nodup ∧
          ∀ id, id ∈ entities ↔ ∃ state, s.log.current id = some state ∧
            ∃ tr ∈ state.triples, tr.predicate = p) ∧
    ∀ call s', step v coalescing s (.report call) = some s' →
      s'.ready ≠ s.ready → ensureQueryReady s' probe = .ok () := by
  have h := inv_run hrun
  refine ⟨fun ht hlen => ⟨?_, ?_, ?_⟩, fun call s' hstep hready => gate_open_of_report h hstep hready probe⟩
  all_goals
    have haligned := (h.ready t ht).2 (Nat.le_of_eq hlen)
  · intro target htarget
    refine ⟨_, handleQueryIncoming_eq htarget probe, nodup_incomingEntries _ _, fun source p => ?_⟩
    rw [mem_incomingEntries h.rows htarget]
    constructor
    · rintro ⟨e, hmem, rfl, heq⟩
      obtain ⟨rfl, rfl⟩ := IncomingEntry.mk.inj heq
      exact (edge_mem_iff e (haligned e.source e.source_ok).settled).1 hmem
    · rintro ⟨state, hstate, tr, htr, hrel, hpred⟩
      obtain ⟨hcontract, hid⟩ := h.stored source state hstate
      have hsource : isValidEntityID source := hid ▸ contract_id hcontract
      have hp : isValidPredicate p := hpred ▸ contract_predicate hcontract htr
      refine ⟨⟨target, source, p, htarget, hsource, hp⟩, ?_, rfl, rfl⟩
      exact (edge_mem_iff ⟨target, source, p, htarget, hsource, hp⟩ (haligned source hsource).settled).2
        ⟨state, hstate, tr, htr, hrel, hpred⟩
  · intro id hid
    rw [handleQueryOutgoing_eq hid probe, (haligned id hid).settled.outgoing]
    cases s.log.current id <;> rfl
  · intro p hp
    refine ⟨_, handleQueryPredicate_eq hp probe, nodup_uniqueSortedStrings _, fun id => ?_⟩
    rw [mem_queryPredicateEntityIDs h.rows hp]
    constructor
    · rintro ⟨r, hmem, rfl, rfl⟩
      exact (membership_mem_iff r (haligned r.entity r.entity_ok).settled).1 hmem
    · rintro ⟨state, hstate, tr, htr, hpred⟩
      obtain ⟨hcontract, hid⟩ := h.stored id state hstate
      have hentity : isValidEntityID id := hid ▸ contract_id hcontract
      refine ⟨⟨p, id, hp, hentity⟩, ?_, rfl, rfl⟩
      exact (membership_mem_iff ⟨p, id, hp, hentity⟩ (haligned id hentity).settled).2
        ⟨state, hstate, tr, htr, hpred⟩

/-! One entity is written, delivered, worked off and reported. -/

def plainVocabulary : Vocabulary where
  namePredicates := fun _ => none
  aliasPredicates := fun _ => false
  nameDigest := fun _ => .replicate 32 0

/-- An entity with one relationship. -/
def linkedState : EntityState where
  id := "a.b.c.d.e.f"
  triples := [{ subject := "a.b.c.d.e.f", predicate := "core.link.to", object := .text "a.b.c.d.e.g" }]
  storageRef := none
  messageType := ⟨"d", "c", "v1"⟩
  version := 1
  updatedAt := 0

def linkedRun : List Event :=
  [.upsert linkedState, .deliver 1 0 true, .take linkedState.id] ++
    List.replicate 8 (.work linkedState.id .ok) ++
    [.complete linkedState.id, .enterStatus 0, .readIndexed 0, .askTarget 0, .readTarget 0 .ok, .report 0]

set_option maxRecDepth 10000 in
/-- The edge is in the answer once the index was reported ready. -/
theorem answers_equal_scan_after_upsert :
    ∃ s, run (step plainVocabulary false) init linkedRun = some s ∧ 1 ∈ s.ready ∧ s.log.length = 1 ∧
      ∃ entries, handleQueryIncoming s false "a.b.c.d.e.g" = .ok entries ∧
        (⟨"a.b.c.d.e.f", "core.link.to"⟩ : IncomingEntry) ∈ entries := by
  refine exists_end (P := fun s => 1 ∈ s.ready ∧ s.log = [(linkedState.id, some linkedState)] ∧
    ensureQueryReady s false = .ok ()) ⟨_, rfl, mem_singleton.2 rfl, rfl, rfl⟩ ?_
  rintro s hrun ⟨hready, hlog, hgate⟩
  have hlen : s.log.length = 1 := by
    rw [hlog]
    rfl
  obtain ⟨entries, hanswer, -, hentries⟩ :=
    ((answers_equal_scan hrun false).1 hready hlen).1 "a.b.c.d.e.g" (by decide)
  rw [hgate] at hanswer
  refine ⟨hready, hlen, entries, hanswer,
    (hentries _ _).2 ⟨linkedState, ?_, _, mem_singleton.2 rfl, by decide, rfl⟩⟩
  rw [hlog]
  rfl

end SemStreams.GraphIndex
