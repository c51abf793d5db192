import SemStreams.GraphIngest.Append
/-!
# graph-ingest — append is exactly-once by identity

Every committed append extends the state its write was conditional on, by
assertions that were not there: `Grows`. So whatever is stored stays where it
is, and an assertion that a request has seen committed, or has found, is there
in every later state. `AppendCall.Ok` adds the bookkeeping of one request: each
subject is settled once, and the counts are those of its committed and
unchanged subjects.
-/

namespace SemStreams.GraphIngest

open SemStreams.Graph KeyedLog List Function

/-! ## The store only grows -/

/-- Triples that follow others and are all new assertions. -/
structure NewAssertions (stored extra : List Triple) : Prop where
  nodup : (identityKeys extra).Nodup
  fresh : ∀ t ∈ extra, appendIdentityKey t ∉ identityKeys stored

/-- **A state extends another.** No entity appears or goes, and each one keeps
its triples in front of new assertions. -/
def Grows (log log' : KeyedLog String EntityState) : Prop :=
  ∀ k, (current log k = none → current log' k = none) ∧
    ∀ e, current log k = some e →
      ∃ e' extra, current log' k = some e' ∧ e'.triples = e.triples ++ extra ∧
        NewAssertions e.triples extra

theorem newAssertions_nil (stored : List Triple) : NewAssertions stored [] :=
  ⟨nodup_nil, fun _ h => absurd h not_mem_nil⟩

variable {stored extra : List Triple}

theorem NewAssertions.append (h : NewAssertions stored extra)
    (h' : NewAssertions (stored ++ extra) extra') : NewAssertions stored (extra ++ extra') := by
  have hkeys : identityKeys (stored ++ extra) = identityKeys stored ++ identityKeys extra :=
    map_append
  constructor
  · have hsplit : identityKeys (extra ++ extra') = identityKeys extra ++ identityKeys extra' :=
      map_append
    rw [hsplit]
    refine h.nodup.append h'.nodup fun key hk hk' => ?_
    obtain ⟨t, ht, rfl⟩ := List.mem_map.1 hk'
    exact h'.fresh t ht (by rw [hkeys]; exact mem_append_right _ hk)
  · intro t ht
    rcases mem_append.1 ht with ht | ht
    · exact h.fresh t ht
    · intro hk
      exact h'.fresh t ht (by rw [hkeys]; exact mem_append_left _ hk)

theorem grows_refl (log : KeyedLog String EntityState) : Grows log log :=
  fun _ => ⟨id, fun e he => ⟨e, [], he, (append_nil _).symm, newAssertions_nil _⟩⟩

theorem Grows.trans {a b c : KeyedLog String EntityState} (hab : Grows a b) (hbc : Grows b c) :
    Grows a c := by
  intro k
  refine ⟨fun hnone => (hbc k).1 ((hab k).1 hnone), fun e he => ?_⟩
  obtain ⟨e', extra, he', htriples, hnew⟩ := (hab k).2 e he
  obtain ⟨e'', extra', he'', htriples', hnew'⟩ := (hbc k).2 e' he'
  rw [htriples] at hnew'
  refine ⟨e'', extra ++ extra', he'', ?_, hnew.append hnew'⟩
  rw [htriples', htriples, append_assoc]

variable {authorizeSubject : String → Bool} {log log' : KeyedLog String EntityState}
  {call : Option AppendCall} {call' : AppendCall}

/-- A landed write extends the state under its key. -/
theorem grows_of_appends (h : Appends authorizeSubject log call log' call')
    (hfresh : ∀ c, call = some c → c.FreshRead log) : Grows log log' := by
  cases h with
  | landed hleft hseen hok hadmits hcall =>
    rename_i subject rest seen _ candidate _
    have hcur := (hfresh _ rfl subject rest seen hleft hseen).current_of_admits hadmits
    obtain ⟨_, hentity, htriples, -, -⟩ := appendClosure_ok hok
    rw [hentity] at hcur
    intro k
    by_cases hk : subject = k
    · subst hk
      refine ⟨fun hnone => absurd (hcur.symm.trans hnone) (by simp), fun e he => ?_⟩
      rw [hcur] at he
      cases he
      exact ⟨candidate, _, current_cons_self, htriples, nodup_dedupeAppendTriples,
        fun t ht => (mem_of_mem_dedupeAppendTriples ht).2⟩
    · rw [current_cons_of_ne hk]
      exact grows_refl log k
  | _ => exact grows_refl log

/-! ## The bookkeeping of one request -/

/-- The identities stored under a key. -/
def keysAt (log : KeyedLog String EntityState) (k : String) : List (List Char) :=
  identityKeys (((current log k).map EntityState.triples).getD [])

/-- The subject's assertions are stored. -/
def SubjectFate.acknowledges : SubjectFate → Bool
  | .committed _ _ | .unchanged _ => true
  | .notFound | .failed _ => false

/-- The fates under which the counts are right: an acknowledged subject counts
its whole group. -/
def SubjectFate.Counts (group : ℕ) : SubjectFate → Prop
  | .committed _ suppressed => suppressed ≤ group
  | .unchanged suppressed => suppressed = group
  | .notFound | .failed _ => True

namespace AddTriplesResult

/-- The subjects whose assertions are stored: committed, or found there. -/
def acknowledged (result : AddTriplesResult) : List String :=
  result.committedRevisions.map Prod.fst ++ result.unchangedSubjects

/-- The subjects with an outcome. -/
def settled (result : AddTriplesResult) : List String :=
  result.acknowledged ++ result.notFoundSubjects ++ result.subjectErrors.map Prod.fst

variable {result : AddTriplesResult} {k : String} {group : ℕ} {fate : SubjectFate}

theorem settled_record : (result.record subject group fate).settled.Perm (subject :: result.settled) := by
  cases fate with
  | committed revision suppressed => exact .refl _
  | unchanged suppressed =>
    simp only [settled, acknowledged, record, append_assoc, cons_append]
    exact perm_middle
  | notFound =>
    simp only [settled, acknowledged, record, append_assoc, cons_append]
    exact (perm_middle.append_left _).trans perm_middle
  | failed err => exact perm_middle

theorem mem_acknowledged_record : k ∈ (result.record subject group fate).acknowledged ↔
      (fate.acknowledges ∧ k = subject) ∨ k ∈ result.acknowledged := by
  cases fate with
  | committed revision suppressed => simp [record, acknowledged, SubjectFate.acknowledges]
  | unchanged suppressed =>
    simp only [record, acknowledged, SubjectFate.acknowledges, mem_append, mem_cons, true_and]
    tauto
  | notFound => simp [record, acknowledged, SubjectFate.acknowledges]
  | failed err => simp [record, acknowledged, SubjectFate.acknowledges]

theorem counts_record (h : fate.Counts group) :
    (result.record subject group fate).written + (result.record subject group fate).deduplicated =
      result.written + result.deduplicated + if fate.acknowledges then group else 0 := by
  cases fate with
  | committed revision suppressed =>
    have hle : suppressed ≤ group := h
    show result.written + (group - suppressed) + (result.deduplicated + suppressed) =
      result.written + result.deduplicated + group
    omega
  | unchanged suppressed =>
    have heq : suppressed = group := h
    show result.written + (result.deduplicated + suppressed) =
      result.written + result.deduplicated + group
    omega
  | notFound | failed => rfl

/-- Exactly one outcome for a subject that was settled once. -/
theorem outcomes_eq_one (hnodup : result.settled.Nodup) (hmem : k ∈ result.settled) :
    result.outcomes k = 1 := by
  have hcount := hnodup.count (a := k)
  rw [if_pos hmem] at hcount
  simp only [settled, acknowledged, nodup_append'] at hnodup
  obtain ⟨⟨⟨hc, hu, -⟩, hn, -⟩, he, -⟩ := hnodup
  simp only [settled, acknowledged, count_append, hc.count, hu.count, hn.count, he.count] at hcount
  exact hcount

variable {β : Type} {l : List (String × β)}

theorem not_mem_map_fst_of_lookup (h : l.lookup k = none) : k ∉ l.map Prod.fst := by
  intro hmem
  obtain ⟨p, hp, rfl⟩ := List.mem_map.1 hmem
  exact absurd (lookup_eq_none_iff.1 h p hp) (by simp)

theorem mem_of_lookup (h : l.lookup k = some b) : (k, b) ∈ l := by
  obtain ⟨_, _, rfl, -⟩ := lookup_eq_some_iff.1 h
  simp

theorem reportSubject_isSome (hmem : k ∈ result.settled) :
    (reportSubject result fetched k).isSome := by
  unfold reportSubject
  simp only [settled, acknowledged, mem_append] at hmem
  cases hc : result.committedRevisions.lookup k with
  | some revision => rfl
  | none =>
    simp only
    split
    · rfl
    cases he : result.subjectErrors.lookup k with
    | some err => rfl
    | none =>
      have hnc := not_mem_map_fst_of_lookup hc
      have hne := not_mem_map_fst_of_lookup he
      have hu : k ∈ result.unchangedSubjects := by tauto
      simp only [if_pos hu]
      cases fetched <;> rfl

end AddTriplesResult

open AddTriplesResult

theorem nodup_distinctSortedSubjects (triples : List Triple) : (distinctSortedSubjects triples).Nodup :=
  (perm_insertionSort _ _).nodup_iff.2 (nodup_dedup _)

theorem mem_distinctSortedSubjects :
    k ∈ distinctSortedSubjects triples ↔ ∃ t ∈ triples, t.subject = k := by
  rw [distinctSortedSubjects, mem_insertionSort, mem_dedup, List.mem_map]

/-- An outcome of the reply says what became of the subject. A subject that was
found unchanged can still fail in the reply, which reads it once more. -/
def AppendSubjectResult.Agrees (result : AddTriplesResult) (r : AppendSubjectResult) : Prop :=
  match r.outcome with
  | .applied revision => (r.entityID, revision) ∈ result.committedRevisions
  | .unchanged _ => r.entityID ∈ result.unchangedSubjects
  | .entityNotFound => r.entityID ∈ result.notFoundSubjects
  | .failed err => (r.entityID, err) ∈ result.subjectErrors ∨
      (r.entityID ∈ result.unchangedSubjects ∧ (err = .unread ∨ err = .resetRequired))

/-- **The bookkeeping of a request.** -/
structure AppendCall.Ok (log : KeyedLog String EntityState) (c : AppendCall) : Prop where
  freshRead : c.FreshRead log
  /-- What was read is still stored. -/
  readStored : ∀ subject rest e r, c.left = subject :: rest → c.seen = some (some (e, r)) →
    identityKeys e.triples ⊆ keysAt log subject
  settled : c.rejected = none →
    ∃ done, done ++ c.left = distinctSortedSubjects c.triples ∧ c.result.settled.Perm done
  counts : c.result.written + c.result.deduplicated =
    (c.triples.filter fun t => t.subject ∈ c.result.acknowledged).length
  present : ∀ t ∈ c.triples, t.subject ∈ c.result.acknowledged →
    appendIdentityKey t ∈ keysAt log t.subject
  valid : ∀ k ∈ c.result.committedRevisions.map Prod.fst,
    ∃ e, current log k = some e ∧ validateEntityStateContract e = true
  reported : c.rejected = none →
    c.results.map AppendSubjectResult.entityID ++ c.unreported = distinctSortedSubjects c.triples
  agrees : ∀ r ∈ c.results, r.Agrees c.result
  silent : c.left ≠ [] → c.results = []
  idle : c.rejected ≠ none → c.left = []

theorem keysAt_subset (h : Grows log log') (k : String) :
    keysAt log k ⊆ keysAt log' k := by
  intro _ hkey
  unfold keysAt at hkey ⊢
  cases hc : current log k with
  | none =>
    rw [hc] at hkey
    cases hkey
  | some e =>
    obtain ⟨_, _, he', htriples, -⟩ := (h k).2 e hc
    rw [hc] at hkey
    rw [he', Option.map_some, Option.getD_some, htriples, identityKeys, map_append]
    exact mem_append_left _ hkey

/-- A write leaves a valid state valid. -/
theorem Appends.valid (h : Appends authorizeSubject log call log' call')
    (hk : ∃ e, current log k = some e ∧ validateEntityStateContract e) :
    ∃ e, current log' k = some e ∧ validateEntityStateContract e := by
  rcases h.log_cases with rfl | ⟨k', candidate, rfl, hcand⟩
  · exact hk
  by_cases hkk : k' = k
  · subst hkk
    exact ⟨candidate, current_cons_self, hcand⟩
  · rwa [current_cons_of_ne hkk]

variable {c : AppendCall}

/-- The bookkeeping of a request stands while others work. -/
theorem AppendCall.Ok.of_log (hc : c.Ok log) (h : Appends authorizeSubject log call log' call')
    (hgrows : Grows log log') : c.Ok log' :=
  { hc with
    freshRead := hc.freshRead.of_log h
    readStored := fun subject rest e r hleft hseen =>
      List.Subset.trans (hc.readStored subject rest e r hleft hseen) (keysAt_subset hgrows subject)
    present := fun t ht hk => keysAt_subset hgrows _ (hc.present t ht hk)
    valid := fun k hk => h.valid (hc.valid k hk) }

theorem length_filter_or {triples : List Triple} {k : String} {subjects : List String}
    (h : k ∉ subjects) :
    (triples.filter fun t => t.subject = k ∨ t.subject ∈ subjects).length =
      (triples.filter fun t => t.subject ∈ subjects).length + (bySubject triples k).length := by
  unfold bySubject
  induction triples with
  | nil => rfl
  | cons t triples ih =>
    by_cases hk : t.subject = k
    · simp only [filter_cons, hk, h, true_or, decide_true, if_true, decide_false,
        Bool.false_eq_true, if_false, length_cons, ih]
      omega
    · by_cases hs : t.subject ∈ subjects
      · simp only [filter_cons, hk, hs, or_true, decide_true, if_true, decide_false,
          Bool.false_eq_true, if_false, length_cons, ih]
        omega
      · simp only [filter_cons, hk, hs, or_self, decide_false, Bool.false_eq_true, if_false, ih]

variable {subject : String} {rest : List String}

/-- A request whose current subject has no outcome yet. -/
theorem AppendCall.Ok.not_settled (hc : c.Ok log) (hleft : c.left = subject :: rest) :
    c.rejected = none ∧ subject ∉ c.result.settled := by
  have hrej : c.rejected = none := by
    by_contra hrej
    have hnil := hc.idle hrej
    rw [hleft] at hnil
    cases hnil
  obtain ⟨_, hdone, hperm⟩ := hc.settled hrej
  refine ⟨hrej, fun hmem => ?_⟩
  have hnodup := nodup_distinctSortedSubjects c.triples
  rw [← hdone, hleft, nodup_append'] at hnodup
  exact hnodup.2.2 (hperm.mem_iff.1 hmem) mem_cons_self

/-- **One more outcome.** The subject is settled, and if it is acknowledged its
assertions are stored. -/
theorem AppendCall.Ok.finish (hc : c.Ok log) {fate : SubjectFate} (hleft : c.left = subject :: rest)
    (hcounts : fate.Counts (bySubject c.triples subject).length)
    (hpresent : subject ∈ (c.finish subject fate).result.acknowledged →
      ∀ t ∈ bySubject c.triples subject, appendIdentityKey t ∈ keysAt log subject)
    (hvalid : subject ∈ (c.finish subject fate).result.committedRevisions.map Prod.fst →
      ∃ e, current log subject = some e ∧ validateEntityStateContract e) :
    (c.finish subject fate).Ok log := by
  obtain ⟨hrej, hnot⟩ := hc.not_settled hleft
  have hsilent : c.results = [] := hc.silent (by rw [hleft]; simp)
  have hnotack : subject ∉ c.result.acknowledged := by
    intro hack
    refine hnot ?_
    simp only [AddTriplesResult.settled, mem_append]
    exact .inl (.inl hack)
  have hcom : ∀ k ∈ (c.finish subject fate).result.committedRevisions.map Prod.fst,
      k = subject ∨ k ∈ c.result.committedRevisions.map Prod.fst := by
    intro k hk
    cases fate with
    | committed revision suppressed => exact mem_cons.1 hk
    | _ => exact .inr hk
  refine ⟨AppendCall.freshRead_of_seen rfl, nofun, fun _ => ?_, ?_,
    ?_, ?_, hc.reported, ?_, fun _ => hsilent, ?_⟩
  · obtain ⟨done, hdone, hperm⟩ := hc.settled hrej
    refine ⟨done ++ [subject], ?_, ?_⟩
    · show done ++ [subject] ++ c.left.tail = distinctSortedSubjects c.triples
      rw [← hdone, hleft, tail_cons, append_assoc, singleton_append]
    · exact settled_record.trans
        ((hperm.cons subject).trans (perm_append_singleton subject done).symm)
  · have hsum := hc.counts
    show (c.result.record subject _ fate).written + (c.result.record subject _ fate).deduplicated =
      (c.triples.filter fun t => t.subject ∈ (c.result.record subject _ fate).acknowledged).length
    rw [counts_record hcounts, hsum]
    simp only [mem_acknowledged_record]
    cases fate.acknowledges with
    | true =>
      simp only [true_and, if_true]
      exact (length_filter_or hnotack).symm
    | false => simp
  · intro t ht hk
    rcases mem_acknowledged_record.1 hk with ⟨-, heq⟩ | hold
    · rw [heq] at hk ⊢
      exact hpresent hk t (mem_filter.2 ⟨ht, by simp [heq]⟩)
    · exact hc.present t ht hold
  · intro k hk
    rcases hcom k hk with rfl | hold
    · exact hvalid hk
    · exact hc.valid k hold
  · intro r hr
    have hnil : r ∈ c.results := hr
    rw [hsilent] at hnil
    cases hnil
  · intro h
    exact absurd hrej h

theorem AppendCall.Ok.retry (hc : c.Ok log) : c.retry.Ok log :=
  { hc with
    freshRead := AppendCall.freshRead_of_seen rfl
    readStored := nofun }

/-- A cancellation settles the rest of the subjects as failed. -/
theorem cancelRest_eq (c : AppendCall) : c.cancelRest = { c with
    left := []
    result := { c.result with
      subjectErrors := (c.left.reverse.map fun k => (k, .cancelled)) ++ c.result.subjectErrors } } := by
  have hfold : ∀ (subjects : List String) (result : AddTriplesResult),
      subjects.foldl (fun result subject => result.record subject 0 (.failed .cancelled)) result =
        { result with
          subjectErrors := (subjects.reverse.map fun k => (k, .cancelled)) ++ result.subjectErrors } := by
    intro subjects
    induction subjects with
    | nil => exact fun _ => rfl
    | cons k subjects ih =>
      intro result
      rw [foldl_cons, ih]
      simp [record]
  unfold AppendCall.cancelRest
  rw [hfold]

theorem AppendCall.Ok.cancelRest (hc : c.Ok log) : c.cancelRest.Ok log := by
  rw [cancelRest_eq]
  refine { hc with
    freshRead := nofun, readStored := nofun, silent := fun hleft => absurd rfl hleft, idle := fun _ => rfl
    settled := fun hrej => ?_, agrees := fun r hr => ?_ }
  rotate_left
  · -- a reply that started has no subject left to cancel
    by_cases hleft : c.left = []
    · rw [hleft]
      exact hc.agrees r hr
    · have hnil : r ∈ c.results := hr
      rw [hc.silent hleft] at hnil
      cases hnil
  obtain ⟨done, hdone, hperm⟩ := hc.settled hrej
  refine ⟨done ++ c.left, by rw [hdone]; exact append_nil _, ?_⟩
  have hlast : (c.left.reverse ++ c.result.subjectErrors.map Prod.fst).Perm
      (c.result.subjectErrors.map Prod.fst ++ c.left) :=
    perm_append_comm.trans ((reverse_perm _).append_left _)
  have hmoved := hlast.append_left (c.result.acknowledged ++ c.result.notFoundSubjects)
  rw [← append_assoc _ (c.result.subjectErrors.map Prod.fst)] at hmoved
  simpa [AddTriplesResult.settled, AddTriplesResult.acknowledged, comp_def] using
    hmoved.trans (hperm.append_right _)

theorem AppendCall.Ok.submit (triples : List Triple) : (submitAppend authorizeSubject triples).Ok log := by
  unfold submitAppend
  cases admitAppend authorizeSubject triples with
  | error reason =>
    exact ⟨nofun, nofun, nofun, by simp [acknowledged],
      by simp [acknowledged], by simp, nofun, by simp,
      fun _ => rfl, fun _ => rfl⟩
  | ok =>
    exact ⟨AppendCall.freshRead_of_seen rfl, by rintro _ _ _ _ _ ⟨⟩,
      fun _ => ⟨[], rfl, .refl _⟩, by simp [acknowledged],
      by simp [acknowledged], by simp, fun _ => rfl, by simp, fun _ => rfl,
      fun hrej => absurd rfl hrej⟩

/-- **The accounting never fails**, so a reply is built subject by subject. -/
theorem AppendCall.Ok.report_eq (hc : c.Ok log) (hleft : c.left = []) (hrej : c.rejected = none)
    (hun : c.unreported = subject :: rest) (answered : Bool) :
    ∃ outcome, reportSubject c.result (fetchRevision log answered subject) subject = some outcome ∧
      c.report log answered subject rest =
        { c with unreported := rest, results := c.results ++ [⟨subject, outcome⟩] } := by
  obtain ⟨_, hdone, hperm⟩ := hc.settled hrej
  rw [hleft, append_nil] at hdone
  subst hdone
  have hsubjects : ∀ k ∈ distinctSortedSubjects c.triples, k ∈ c.result.settled :=
    fun k hk => hperm.mem_iff.2 hk
  have hnodup : c.result.settled.Nodup := hperm.nodup_iff.2 (nodup_distinctSortedSubjects _)
  have hacc : validateCanonicalAppendAccounting (distinctSortedSubjects c.triples) c.result := by
    rw [validateCanonicalAppendAccounting, List.all_eq_true]
    intro k hk
    exact decide_eq_true (outcomes_eq_one hnodup (hsubjects k hk))
  have hmem : subject ∈ distinctSortedSubjects c.triples := by
    rw [← hc.reported hrej, hun]
    simp
  obtain ⟨outcome, houtcome⟩ := Option.isSome_iff_exists.1
    (@reportSubject_isSome c.result subject (fetchRevision log answered subject)
      (hsubjects subject hmem))
  refine ⟨outcome, houtcome, ?_⟩
  unfold AppendCall.report
  rw [if_pos hacc, houtcome]

theorem AppendCall.Ok.mem_of_unreported (hc : c.Ok log) (hrej : c.rejected = none)
    (hun : c.unreported = subject :: rest) : ∃ t ∈ c.triples, t.subject = subject := by
  rw [← mem_distinctSortedSubjects, ← hc.reported hrej, hun]
  simp

/-- What is reported agrees: a subject found unchanged is still there. -/
theorem AppendCall.Ok.report_agrees (hc : c.Ok log) (hmem : ∃ t ∈ c.triples, t.subject = subject)
    (h : reportSubject c.result (fetchRevision log answered subject) subject = some outcome) :
    AppendSubjectResult.Agrees c.result ⟨subject, outcome⟩ := by
  unfold reportSubject at h
  split at h
  · rename_i _ hlookup
    cases h
    exact mem_of_lookup hlookup
  · split at h
    · cases h
      assumption
    · split at h
      · rename_i _ hlookup
        cases h
        exact .inl (mem_of_lookup hlookup)
      · obtain ⟨hunchanged, h⟩ := Option.ite_none_right_eq_some.1 h
        obtain ⟨t, ht, rfl⟩ := hmem
        have hack : t.subject ∈ c.result.acknowledged := mem_append_right _ hunchanged
        have hkey := hc.present t ht hack
        split at h
        · cases h
          exact hunchanged
        · rename_i _ hfetch
          cases h
          unfold fetchRevision at hfetch
          split at hfetch
          · cases hfetch
            exact .inr ⟨hunchanged, .inl rfl⟩
          · split at hfetch
            · -- its assertions are stored, so the entity is
              rename_i hsnap
              rw [snapshot, Option.map_eq_none_iff] at hsnap
              rw [keysAt, hsnap] at hkey
              cases hkey
            · split at hfetch <;> cases hfetch
              exact .inr ⟨hunchanged, .inr rfl⟩

/-- **A step keeps the bookkeeping of its request.** -/
theorem ok_of_appends (h : Appends authorizeSubject log call log' call')
    (hok : ∀ c, call = some c → c.Ok log) : call'.Ok log' := by
  have hgrows := grows_of_appends h fun c hc => (hok c hc).freshRead
  have hlater : ∀ c, call = some c → c.Ok log' := fun c hc => (hok c hc).of_log h hgrows
  cases h with
  | submitted triples => exact .submit triples
  | read hleft =>
    rename_i c subject rest
    have hc := hok c rfl
    refine { hc with freshRead := ?_, readStored := ?_ }
    · intro subject' rest' seen hleft' hseen
      cases hleft.symm.trans hleft'
      cases hseen
      exact fresh_snapshot log subject
    · intro subject' rest' e r hleft' hseen
      cases hleft.symm.trans hleft'
      obtain ⟨v, hv, ⟨⟩⟩ := Option.map_eq_some_iff.1 (Option.some.inj hseen)
      rw [keysAt, hv]
      exact fun _ => id
  | stopped hleft hseen hstop =>
    rename_i c subject rest seen now stop
    have hc := hok c rfl
    have hack : stop.fate.acknowledges = true → ∃ n, stop.fate = .unchanged n := by
      cases stop with
      | noOpAddDuplicate n => exact fun _ => ⟨n, rfl⟩
      | notFound | contract => exact nofun
    refine hc.finish hleft ?_ ?_ ?_
    · cases hfate : stop.fate with
      | unchanged n => exact (stored_of_unchanged hstop hfate).1
      | committed revision suppressed => cases stop <;> cases hfate
      | notFound | failed => trivial
    · intro hmem t ht
      rcases mem_acknowledged_record.1 hmem with ⟨hfate, -⟩ | hold
      · obtain ⟨n, hn⟩ := hack hfate
        obtain ⟨-, entity, hentity, hstored⟩ := stored_of_unchanged hstop hn
        obtain ⟨⟨e, r⟩, rfl, rfl⟩ := Option.map_eq_some_iff.1 hentity
        exact hc.readStored subject rest e r hleft hseen (hstored t ht)
      · have hnot := (hc.not_settled hleft).2
        exact absurd (by simp only [settled, mem_append]; exact .inl (.inl hold)) hnot
    · intro hmem
      have hnot := (hc.not_settled hleft).2
      have hold : subject ∈ c.result.committedRevisions.map Prod.fst := by
        cases stop <;> exact hmem
      refine absurd ?_ hnot
      simp only [settled, acknowledged, mem_append]
      exact .inl (.inl (.inl hold))
  | landed hleft hseen hok' hadmits hcall =>
    rename_i c subject rest seen now candidate suppressed
    have hc := hlater c rfl
    obtain ⟨entity, -, htriples, _, hvalid⟩ := appendClosure_ok hok'
    rcases hcall with rfl | rfl
    · refine hc.finish hleft ?_ (fun _ t ht => ?_) fun _ => ⟨candidate, current_cons_self, hvalid⟩
      · have hlen := length_dedupeAppendTriples entity.triples (bySubject c.triples subject)
        show suppressed ≤ _
        omega
      · rw [keysAt, current_cons_self, Option.map_some, Option.getD_some, htriples]
        exact mem_identityKeys_append ht
    · exact hc.retry
  | retried => exact (hok _ rfl).retry
  | abandoned hleft =>
    rename_i c subject rest
    have hc := hok c rfl
    have hnot := (hc.not_settled hleft).2
    simp only [settled, acknowledged, mem_append, not_or] at hnot
    refine hc.finish hleft trivial (fun hmem => ?_) fun hmem => absurd hmem hnot.1.1.1
    rcases mem_append.1 hmem with hold | hold
    · exact absurd hold hnot.1.1.1
    · exact absurd hold hnot.1.1.2
  | cancelled => exact (hok _ rfl).cancelRest
  | reported answered hleft hrej hun =>
    rename_i c subject rest
    have hc := hok c rfl
    obtain ⟨_, houtcome, heq⟩ := hc.report_eq hleft hrej hun answered
    rw [heq]
    refine { hc with
      reported := fun _ => ?_
      agrees := ?_
      silent := fun h => absurd hleft h }
    · rw [← hc.reported hrej, hun]
      simp
    · intro r hr
      rcases mem_append.1 hr with hr | hr
      · exact hc.agrees r hr
      · rw [mem_singleton.1 hr]
        exact hc.report_agrees (hc.mem_of_unreported hrej hun) houtcome

/-- A request is refused by its admission or not at all. -/
theorem rejected_of_appends (h : Appends authorizeSubject log call log' call')
    (hok : ∀ c, call = some c → c.Ok log)
    (hold : ∀ c, call = some c → c.rejected = (submitAppend authorizeSubject c.triples).rejected) :
    call'.rejected = (submitAppend authorizeSubject call'.triples).rejected := by
  cases h with
  | submitted triples =>
    unfold submitAppend
    cases hcheck : admitAppend authorizeSubject triples <;> simp only [hcheck]
  | landed hleft hseen hclosure hadmits hcall => rcases hcall with rfl | rfl <;> exact (hold _ rfl :)
  | reported answered hleft hrej hun =>
    obtain ⟨_, -, heq⟩ := (hok _ rfl).report_eq hleft hrej hun answered
    rw [heq]
    exact (hold _ rfl :)
  | _ => exact (hold _ rfl :)

/-! ## A batch that is stored already -/

/-- Every assertion of the batch is stored, in a valid state. -/
def Stored (log : KeyedLog String EntityState) (triples : List Triple) : Prop :=
  ∀ t ∈ triples, appendIdentityKey t ∈ keysAt log t.subject ∧
    ∃ e, current log t.subject = some e ∧ validateEntityStateContract e = true

/-- **A request without effect.** It committed nothing, and what it reports is
`unchanged` except where the store did not answer. -/
structure AppendCall.NoOp (c : AppendCall) : Prop where
  seen : ∀ subject rest seen, c.left = subject :: rest → c.seen = some seen →
    ∃ e r, seen = some (e, r) ∧
      ∀ t ∈ bySubject c.triples subject, appendIdentityKey t ∈ identityKeys e.triples
  written : c.result.written = 0
  committed : c.result.committedRevisions = []
  notFound : c.result.notFoundSubjects = []
  errors : ∀ p ∈ c.result.subjectErrors, p.2.ofStore = true
  results : ∀ r ∈ c.results, (∃ revision, r.outcome = .unchanged revision) ∨
    ∃ err, r.outcome = .failed err ∧ err.ofStore = true

theorem Stored.of_appends (hs : Stored log triples)
    (h : Appends authorizeSubject log call log' call') (hgrows : Grows log log') :
    Stored log' triples := by
  intro t ht
  obtain ⟨hkey, hvalid⟩ := hs t ht
  exact ⟨keysAt_subset hgrows _ hkey, h.valid hvalid⟩

theorem AppendCall.Ok.mem_of_left (hc : c.Ok log) (hleft : c.left = subject :: rest) :
    ∃ t ∈ c.triples, t.subject = subject := by
  obtain ⟨_, hdone, -⟩ := hc.settled (hc.not_settled hleft).1
  rw [← mem_distinctSortedSubjects, ← hdone, hleft]
  simp

/-- The current subject is found unchanged. -/
theorem AppendCall.NoOp.closure (hc : c.NoOp) {seen : Snapshot EntityState}
    (hleft : c.left = subject :: rest) (hseen : c.seen = some seen) (now : ℕ) :
    appendClosure (bySubject c.triples subject) now (seen.map Prod.fst) =
      .error (.noOpAddDuplicate (bySubject c.triples subject).length) := by
  obtain ⟨e, r, rfl, hstored⟩ := hc.seen subject rest seen hleft hseen
  simp [appendClosure, dedupeAppendTriples_of_stored hstored]

theorem noOp_submit (triples : List Triple) : (submitAppend authorizeSubject triples).NoOp := by
  unfold submitAppend
  cases admitAppend authorizeSubject triples with
  | error reason => exact ⟨nofun, rfl, rfl, rfl, by simp, by simp⟩
  | ok => exact ⟨nofun, rfl, rfl, rfl, by simp, by simp⟩

/-- A report of a request without effect. -/
theorem AppendCall.NoOp.reportSubject (hc : c.NoOp) {answered : Bool} {outcome : AppendOutcome}
    (hcur : ∃ e, current log subject = some e ∧ validateEntityStateContract e)
    (h : reportSubject c.result (fetchRevision log answered subject) subject = some outcome) :
    (∃ revision, outcome = .unchanged revision) ∨
      ∃ err, outcome = .failed err ∧ err.ofStore := by
  obtain ⟨e, he, hvalid⟩ := hcur
  unfold GraphIngest.reportSubject at h
  rw [hc.committed, hc.notFound] at h
  simp only [lookup_nil, not_mem_nil, if_false] at h
  split at h
  · rename_i err hlookup
    cases h
    exact .inr ⟨err, rfl, hc.errors _ (mem_of_lookup hlookup)⟩
  · obtain ⟨_, h⟩ := Option.ite_none_right_eq_some.1 h
    cases answered with
    | true =>
      simp only [fetchRevision, snapshot, he, hvalid, Option.map_some, Bool.not_true,
        Bool.false_eq_true, if_false, if_true, Option.some.injEq] at h
      exact .inl ⟨_, h.symm⟩
    | false =>
      simp only [fetchRevision, Bool.not_false, if_true, Option.some.injEq] at h
      exact .inr ⟨.unread, h.symm, rfl⟩

/-- **A request for what is stored has no effect**, step by step. -/
theorem noOp_of_appends (h : Appends authorizeSubject log call log' call')
    (hok : ∀ c, call = some c → c.Ok log) (hno : ∀ c, call = some c → c.NoOp)
    (hstored : Stored log call'.triples) : log' = log ∧ call'.NoOp := by
  cases h with
  | submitted triples => exact ⟨rfl, noOp_submit triples⟩
  | read hleft =>
    rename_i c subject rest
    refine ⟨rfl, { hno c rfl with seen := ?_ }⟩
    intro _ _ seen hleft' hseen
    cases hleft.symm.trans hleft'
    cases hseen
    obtain ⟨t, ht, rfl⟩ := (hok c rfl).mem_of_left hleft
    obtain ⟨-, e, he, -⟩ := hstored t ht
    refine ⟨e, lastRevision log t.subject, by rw [snapshot, he]; rfl, fun u hu => ?_⟩
    obtain ⟨hu, hsub⟩ := mem_filter.1 hu
    have hkey := (hstored u hu).1
    rw [of_decide_eq_true hsub, keysAt, he] at hkey
    exact hkey
  | stopped hleft hseen hstop =>
    rename_i c subject rest seen now _
    have hc := hno c rfl
    rw [hc.closure hleft hseen now, Except.error.injEq] at hstop
    subst hstop
    exact ⟨rfl, nofun, hc.written, hc.committed, hc.notFound, hc.errors, hc.results⟩
  | landed hleft hseen hclosure hadmits hcall =>
    rename_i c subject rest seen now _ _
    rw [(hno c rfl).closure hleft hseen now] at hclosure
    cases hclosure
  | retried => exact ⟨rfl, { hno _ rfl with seen := nofun }⟩
  | abandoned hleft =>
    have hc := hno _ rfl
    refine ⟨rfl, nofun, hc.written, hc.committed, hc.notFound, ?_, hc.results⟩
    intro p hp
    rcases mem_cons.1 hp with rfl | hp
    · rfl
    · exact hc.errors p hp
  | cancelled =>
    rename_i c
    have hc := hno c rfl
    rw [cancelRest_eq]
    refine ⟨rfl, { hc with seen := nofun, errors := fun p hp => ?_ }⟩
    rcases mem_append.1 hp with hp | hp
    · obtain ⟨k, -, rfl⟩ := List.mem_map.1 hp
      rfl
    · exact hc.errors p hp
  | reported answered hleft hrej hun =>
    rename_i c subject rest
    have hc := hno c rfl
    obtain ⟨_, houtcome, heq⟩ := (hok c rfl).report_eq hleft hrej hun answered
    rw [heq] at hstored ⊢
    refine ⟨rfl, { hc with results := ?_ }⟩
    intro r hr
    rcases mem_append.1 hr with hr | hr
    · exact hc.results r hr
    · rw [mem_singleton.1 hr]
      obtain ⟨t, ht, rfl⟩ := (hok c rfl).mem_of_unreported hrej hun
      exact hc.reportSubject (hstored t ht).2 houtcome

/-! ## Whole runs -/

namespace AppendSystem

variable {s s' : AppendSystem} {log₀ : KeyedLog String EntityState}

/-- Every request keeps its books, and the store extends the one it started as. -/
structure Inv (log₀ : KeyedLog String EntityState) (s : AppendSystem) : Prop where
  ok : ∀ i c, s.calls i = some c → c.Ok s.log
  grows : Grows log₀ s.log

theorem inv_start (log₀ : KeyedLog String EntityState) : Inv log₀ (start log₀) :=
  ⟨nofun, grows_refl log₀⟩

theorem Inv.step (hs : Inv log₀ s) (h : s.step authorizeSubject e = some s') : Inv log₀ s' := by
  obtain ⟨_, happ, hcalls⟩ := appends_of_step h
  have hok := hs.ok e.1
  have hgrows := grows_of_appends happ fun c hc => (hok c hc).freshRead
  refine ⟨?_, hs.grows.trans hgrows⟩
  rw [hcalls]
  exact forall_slot_fill (ok_of_appends happ hok) fun j c hj => (hs.ok j c hj).of_log happ hgrows

theorem inv_of_run (h : run (step authorizeSubject) (start log₀) es = some s) : Inv log₀ s :=
  run_invariant (fun _ _ _ hs hstep => hs.step hstep) (inv_start log₀) h

theorem rejected_of_run (h : run (step authorizeSubject) (start log₀) es = some s) :
    ∀ i c, s.calls i = some c → c.rejected = (submitAppend authorizeSubject c.triples).rejected := by
  refine (run_invariant (I := fun s => Inv log₀ s ∧ ∀ i c, s.calls i = some c →
      c.rejected = (submitAppend authorizeSubject c.triples).rejected)
    (fun s e s' hs hstep => ⟨hs.1.step hstep, ?_⟩) ⟨inv_start log₀, nofun⟩ h).2
  obtain ⟨_, happ, hcalls⟩ := appends_of_step hstep
  rw [hcalls]
  exact forall_slot_fill (rejected_of_appends happ (hs.1.ok e.1) (hs.2 e.1)) hs.2

/-- Beside the books, one slot holds a request for a batch that is stored. -/
structure Resubmitting (log₀ : KeyedLog String EntityState) (j : ℕ) (triples : List Triple)
    (s : AppendSystem) : Prop where
  inv : Inv log₀ s
  stored : Stored s.log triples
  noOp : ∀ c, s.calls j = some c → c.triples = triples → c.NoOp

theorem triples_of_appends
    (h : Appends authorizeSubject log (some c) log' call') : call'.triples = c.triples := by
  cases h with
  | landed hleft hseen hok hadmits hcall => rcases hcall with rfl | rfl <;> rfl
  | reported answered hleft hrej hun =>
    unfold AppendCall.report
    split
    · split <;> rfl
    · rfl
  | _ => rfl

/-- The request's own steps leave the store as it is. -/
theorem Resubmitting.own_step (hs : Resubmitting log₀ j triples s)
    (h : s.step authorizeSubject (j, ev) = some s')
    (htriples : ∀ c, s'.calls j = some c → c.triples = triples) : s'.log = s.log := by
  obtain ⟨call', happ, hcalls⟩ := appends_of_step h
  have hcall' : call'.triples = triples := htriples call' (by rw [hcalls, update_self])
  refine (noOp_of_appends happ (hs.inv.ok j) (fun c hc => ?_) (hcall' ▸ hs.stored)).1
  have hsame : call'.triples = c.triples := by
    rw [show s.calls (j, ev).1 = some c from hc] at happ
    exact triples_of_appends happ
  exact hs.noOp c hc (hsame.symm.trans hcall')

theorem Resubmitting.step (hs : Resubmitting log₀ j triples s)
    (h : s.step authorizeSubject e = some s') : Resubmitting log₀ j triples s' := by
  have hinv := hs.inv.step h
  obtain ⟨_, happ, hcalls⟩ := appends_of_step h
  have hgrows := grows_of_appends happ fun c hc => (hs.inv.ok e.1 c hc).freshRead
  refine ⟨hinv, hs.stored.of_appends happ hgrows, fun c hc htriples => ?_⟩
  rw [hcalls] at hc
  by_cases hj : j = e.1
  · subst hj
    rw [update_self] at hc
    cases hc
    refine (noOp_of_appends happ (hs.inv.ok e.1) (fun c hc => ?_) (htriples ▸ hs.stored)).2
    rw [hc] at happ
    exact hs.noOp c hc ((triples_of_appends happ).symm.trans htriples)
  · rw [update_of_ne hj] at hc
    exact hs.noOp c hc htriples

end AppendSystem

open AppendSystem

/-- Extending a state by new assertions, counted by identity: an assertion that
is there afterwards was there as often before, or is there once. -/
theorem countP_append_of_newAssertions (h : NewAssertions stored extra)
    (hmem : appendIdentityKey t ∈ identityKeys (stored ++ extra)) :
    (stored ++ extra).countP (sameAppendTuple t) = max 1 (stored.countP (sameAppendTuple t)) := by
  have hcount : ∀ l : List Triple,
      l.countP (sameAppendTuple t) = (identityKeys l).count (appendIdentityKey t) := by
    intro l
    rw [identityKeys, List.count, countP_map]
    refine countP_congr fun u _ => ?_
    simp only [sameAppendTuple, Function.comp, beq_iff_eq]
    exact eq_comm
  rw [countP_append, hcount, hcount]
  have hsplit : identityKeys (stored ++ extra) = identityKeys stored ++ identityKeys extra :=
    map_append
  rw [hsplit, mem_append] at hmem
  by_cases hs : appendIdentityKey t ∈ identityKeys stored
  · have hx : appendIdentityKey t ∉ identityKeys extra := by
      intro hx
      obtain ⟨u, hu, hkey⟩ := List.mem_map.1 hx
      exact h.fresh u hu (hkey ▸ hs)
    have hpos := count_pos_iff.2 hs
    rw [count_eq_zero.2 hx]
    omega
  · have hx := hmem.resolve_left hs
    rw [count_eq_zero.2 hs, count_eq_one_of_mem h.nodup hx]
    rfl

/-- **Append is exactly-once by identity.** In every state of every run of
appends, whatever the conflicts and retries:

* an entity keeps the triples it started with, in order and in front, and holds
  each assertion of an acknowledged subject exactly once, or as often as it
  started with it;
* a batch whose subjects all committed, submitted again, commits nothing, never
  moves a revision, and reports every subject as unchanged unless the store does
  not answer;
* a reply has one outcome per distinct subject, and the counts are those of the
  committed and unchanged subjects. -/
theorem append_exactly_once {log₀ : KeyedLog String EntityState} {es : List (ℕ × AppendEvent)}
    {s : AppendSystem}
    (h : run (step authorizeSubject) (start log₀) es = some s) :
    (∀ k, (current log₀ k = none → current s.log k = none) ∧
      ∀ e₀, current log₀ k = some e₀ → ∃ e, current s.log k = some e ∧ e₀.triples <+: e.triples ∧
        ∀ i c, s.calls i = some c → k ∈ c.result.acknowledged →
          ∀ t ∈ c.triples, t.subject = k →
            e.triples.countP (sameAppendTuple t) = max 1 (e₀.triples.countP (sameAppendTuple t))) ∧
    (∀ i c j, s.calls i = some c →
      (∀ k ∈ distinctSortedSubjects c.triples, k ∈ c.result.committedRevisions.map Prod.fst) →
      s.calls j = none →
      ∀ es' s', run (step authorizeSubject) s es' = some s' →
        ∀ c', s'.calls j = some c' → c'.triples = c.triples →
          c'.rejected = c.rejected ∧ c'.result.committedRevisions = [] ∧ c'.result.written = 0 ∧
          (∀ r ∈ c'.results, (∃ revision, r.outcome = .unchanged revision) ∨
            ∃ err, r.outcome = .failed err ∧ err.ofStore = true) ∧
          ∀ ev s'', s'.step authorizeSubject (j, ev) = some s'' → s''.log = s'.log) ∧
    (∀ i c, s.calls i = some c → c.rejected = none → c.unreported = [] →
      c.results.map AppendSubjectResult.entityID = distinctSortedSubjects c.triples ∧
      (c.results.map AppendSubjectResult.entityID).Nodup ∧
      (∀ r ∈ c.results, r.Agrees c.result) ∧
      c.result.written + c.result.deduplicated =
        (c.triples.filter fun t => t.subject ∈ c.result.acknowledged).length) := by
  have hinv := inv_of_run h
  have hrejected := rejected_of_run h
  refine ⟨fun k => ⟨(hinv.grows k).1, fun e₀ he₀ => ?_⟩, ?_, ?_⟩
  · obtain ⟨e, extra, he, htriples, hnew⟩ := (hinv.grows k).2 e₀ he₀
    refine ⟨e, he, ⟨extra, htriples.symm⟩, ?_⟩
    rintro i c hc hk t ht rfl
    have hkey := (hinv.ok i c hc).present t ht hk
    rw [keysAt, he, Option.map_some, Option.getD_some, htriples] at hkey
    rw [htriples]
    exact countP_append_of_newAssertions hnew hkey
  · intro i c j hc hall hj es' s' hrun c' hc' htriples
    have hok := hinv.ok i c hc
    -- every subject committed, so the batch is stored when it is submitted again
    have hstored : Stored s.log c.triples := by
      intro t ht
      have hk := hall t.subject (mem_distinctSortedSubjects.2 ⟨t, ht, rfl⟩)
      exact ⟨hok.present t ht (mem_append_left _ hk), hok.valid _ hk⟩
    have hres : Resubmitting log₀ j c.triples s' :=
      run_invariant (fun _ _ _ hs hstep => hs.step hstep)
        ⟨hinv, hstored, fun c hcj => (nomatch hj.symm.trans hcj)⟩ hrun
    have hno := hres.noOp c' hc' htriples
    refine ⟨?_, hno.committed, hno.written, hno.results, fun ev s'' hstep => ?_⟩
    · have hrej' := rejected_of_run (run_append_of h hrun) j c' hc'
      rw [hrej', hrejected i c hc, htriples]
    · refine hres.own_step hstep fun d hd => ?_
      obtain ⟨_, happ, hcalls⟩ := appends_of_step hstep
      rw [hcalls, update_self, Option.some.injEq] at hd
      rw [show s'.calls (j, ev).1 = some c' from hc'] at happ
      rw [← hd, triples_of_appends happ, htriples]
  · intro i c hc hrej hun
    have hok := hinv.ok i c hc
    have hreported := hok.reported hrej
    rw [hun, append_nil] at hreported
    exact ⟨hreported, hreported ▸ nodup_distinctSortedSubjects c.triples, hok.agrees, hok.counts⟩

/-- A valve and two tags for it. -/
def valve : String := "acme.dep1.plant.control.valve.7"

def valveTag (value : String) : Triple where
  subject := valve
  predicate := "control.valve.tag"
  object := .text value

def valveResident : EntityState where
  id := valve
  triples := [{ subject := valve, predicate := "control.valve.state", object := .text "open" }]
  storageRef := none
  messageType := ⟨"control", "valve", "v1"⟩
  version := 1
  updatedAt := 0

/-- Two batches that read the same state: the second loses the compare-and-set
and finds one of its tags stored on the retry. -/
def racingBatches : List (ℕ × AppendEvent) :=
  [(0, .submit [valveTag "a"]), (1, .submit [valveTag "a", valveTag "b"]), (0, .read), (1, .read),
    (0, .write 5 .ok), (1, .write 6 .ok), (1, .read), (1, .write 7 .ok), (0, .report true),
    (1, .report true)]

set_option maxRecDepth 10000 in
/-- Both batches commit, and the shared tag is stored once. -/
theorem append_exactly_once_racing :
    ∃ s, run (step fun _ => true) (start [(valve, some valveResident)])
        racingBatches = some s ∧
      ∃ e, current s.log valve = some e ∧ e.triples.countP (sameAppendTuple (valveTag "a")) = 1 := by
  refine exists_end (P := fun s => ∃ c, s.calls 0 = some c ∧ c.triples = [valveTag "a"] ∧
    c.result.committedRevisions = [(valve, 2)]) (by decide +kernel) ?_
  rintro s hrun ⟨c, hc, htriples, hcommitted⟩
  obtain ⟨e, he, -, hcount⟩ := ((append_exactly_once hrun).1 valve).2 valveResident rfl
  refine ⟨e, he, ?_⟩
  have hack : valve ∈ c.result.acknowledged := by
    simp [acknowledged, hcommitted]
  exact hcount 0 c hc hack (valveTag "a") (by simp [htriples]) rfl

end SemStreams.GraphIngest
