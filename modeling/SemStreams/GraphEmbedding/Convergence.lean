import SemStreams.GraphEmbedding.Pipeline
import SemStreams.Lib.Slots
/-!
# graph-embedding — convergence of the embedding index

Everything the pipeline holds was made of a state of the entity no newer than the present
one, and of the present one if its revision says so (`Genuine`). With that, two debts
carry the argument. Hop 1 owes the index a record of the present state as long as a change
is undelivered, in hand, queued or being flushed, and otherwise it is paying or has paid.
Hop 2 owes every pending record an outcome as long as its entry is undelivered or with a
worker that nobody has overtaken. Where all is quiet both are paid.

The worker that finds no text deletes whatever record there is. Only there can a newer
record be lost.
-/

namespace SemStreams.GraphEmbedding

open List Option

open SemStreams.Graph (EntityState)

variable {Vec : Type} {c : Config Vec}

/-! ## What records are made of -/

variable (c)

/-- A source made of a state of the entity: of the present one, if it has its revision. -/
def Genuine (present : Change) (revision : ℕ) (source : Source) : Prop :=
  revision ≤ present.revision ∧
    (revision = present.revision → present.state.bind (pendingSource c) = some source)

def VectorOf (source : Source) (vector : Vec) : Prop :=
  getSourceText c source ≠ "" ∧ vector = c.embed (getSourceText c source)

/-- A record made of a state of the entity. -/
def Sound (present : Change) (record : Record Vec) : Prop :=
  match record.content with
  | .pending source => Genuine c present record.sourceRevision source
  | .generated vector =>
    ∃ source, Genuine c present record.sourceRevision source ∧ VectorOf c source vector

def Phase.vector? : Phase Vec → Option Vec
  | .reading vector _ => some vector
  | .writing vector _ _ => some vector
  | _ => none

def Hop1.saving? : Hop1 → Option (ℕ × Source)
  | .reading revision source _ => some (revision, source)
  | .writing revision source _ _ => some (revision, source)
  | _ => none

/-- A worker that nobody has overtaken since its entry. -/
def Phase.Unbeaten (kv : ℕ) : Phase Vec → Prop
  | .taken => True
  | .reading _ attempt => attempt = 0
  | .writing _ attempt seen => attempt = 0 ∧ seen = kv
  | .finished => False

variable {c} {present : Change} {revision : ℕ} {source : Source} {record : Record Vec}

theorem Genuine.newer (h : Genuine c present revision source)
    (hnew : present.revision < present'.revision) : Genuine c present' revision source :=
  ⟨by have := h.1; omega, fun heq => absurd h.1 (by omega)⟩

theorem Sound.newer (h : Sound c present record) (hnew : present.revision < present'.revision) :
    Sound c present' record := by
  unfold Sound at h ⊢
  split
  · next hcontent =>
    rw [hcontent] at h
    exact h.newer hnew
  · next hcontent =>
    rw [hcontent] at h
    obtain ⟨source, hsource, hvector⟩ := h
    exact ⟨source, hsource.newer hnew, hvector⟩

theorem Sound.revision_le (h : Sound c present record) : record.sourceRevision ≤ present.revision := by
  unfold Sound at h
  split at h
  · exact h.1
  · obtain ⟨_, hsource, _⟩ := h
    exact hsource.1

/-- A record of the present revision shows that the entity has a source. -/
theorem Sound.exists_source (h : Sound c present record) (heq : record.sourceRevision = present.revision) :
    ∃ source, present.state.bind (pendingSource c) = some source := by
  unfold Sound at h
  split at h
  · exact ⟨_, h.2 heq⟩
  · obtain ⟨source, hsource, _⟩ := h
    exact ⟨source, hsource.2 heq⟩

/-! ## The invariant -/

/-- The record is that of the present state, or there is none where it has no text. -/
def Held (c : Config Vec) (s : State Vec) : Prop :=
  match s.current.bind (pendingSource c) with
  | none => s.index = none
  | some source =>
    (∃ record, s.index = some record ∧ record.sourceRevision = s.last) ∨
      s.index = none ∧ getSourceText c source = ""

/-- Hop 1 has paid its debt, or is paying it. -/
def Paying (c : Config Vec) (s : State Vec) : Prop :=
  match s.hop1 with
  | .idle => Held c s
  | .delete => s.current.bind (pendingSource c) = none
  | .reading revision _ _ => revision = s.last
  | .writing revision _ _ _ => revision = s.last

variable {s : State Vec}

theorem held_none (h : s.current.bind (pendingSource c) = none) : Held c s ↔ s.index = none := by
  rw [Held, h]

theorem held_some (h : s.current.bind (pendingSource c) = some source) :
    Held c s ↔ (∃ record, s.index = some record ∧ record.sourceRevision = s.last) ∨
      s.index = none ∧ getSourceText c source = "" := by
  rw [Held, h]

/-- A step of hop 2 leaves hop 1 where it is. -/
theorem Paying.of_held (h : Paying c s) (hhop : s'.hop1 = s.hop1) (hlast : s'.last = s.last)
    (hcurrent : s'.current = s.current) (hheld : Held c s → Held c s') : Paying c s' := by
  unfold Paying at h ⊢
  rw [hhop]
  split
  · next hidle =>
    rw [hidle] at h
    exact hheld h
  · next hdelete =>
    rw [hdelete] at h
    rwa [hcurrent]
  · next hreading =>
    rw [hreading] at h
    rwa [hlast]
  · next hwriting =>
    rw [hwriting] at h
    rwa [hlast]

structure Inv (c : Config Vec) (s : State Vec) : Prop where
  index : ∀ record, s.index = some record → Sound c s.present record
  puts : ∀ put ∈ s.puts, Sound c s.present put.2
  workers : ∀ i w, s.workers.lookup i = some w → Genuine c s.present w.revision w.source
  vectors : ∀ i w, s.workers.lookup i = some w → ∀ vector, w.phase.vector? = some vector →
    VectorOf c w.source vector
  seen : ∀ i w, s.workers.lookup i = some w → ∀ vector attempt seen,
    w.phase = .writing vector attempt seen →
    seen ≤ s.kv ∧ (s.kv = seen → ∃ record, s.index = some record ∧ record.sourceRevision ≤ w.revision)
  saving : ∀ revision source, s.hop1.saving? = some (revision, source) →
    Genuine c s.present revision source
  dedup : ∀ text vector, s.dedup.lookup text = some vector → vector = c.embed text
  feed : ∀ change ∈ s.hand.toList ++ s.feed, change.revision ≤ s.last ∧
    (change.revision = s.last → change.state = s.current)
  latest : ∀ change, (s.hand.toList ++ s.feed).getLast? = some change → change = s.present
  stranded : s.stranded = none
  owed : s.feed = [] → s.hand = none → s.queued = false → s.flushing = 0 → Paying c s
  taken : ∀ record source, s.index = some record → record.content = .pending source →
    (s.kv, record) ∈ s.puts ∨ ∃ i w, s.workers.lookup i = some w ∧ w.entry = s.kv ∧
      w.revision = record.sourceRevision ∧ w.phase.Unbeaten s.kv

theorem inv_initial : Inv c (State.initial : State Vec) where
  index := nofun
  puts := nofun
  workers := nofun
  vectors := nofun
  seen := nofun
  saving := nofun
  dedup := nofun
  feed := nofun
  latest := nofun
  stranded := rfl
  owed _ _ _ _ := rfl
  taken := nofun

/-- **Where all is quiet, both debts are paid.** -/
theorem Inv.converged (h : Inv c s) (hq : Quiescent s) : Converged c s := by
  have hheld : Held c s := by
    have hpaying := h.owed hq.feed hq.hand hq.queued hq.flushing
    rwa [Paying, hq.hop1] at hpaying
  have hnone : ∀ i, s.workers.lookup i = none := by
    intro i
    rw [hq.workers]
    rfl
  -- no record is pending any more
  have hdone : ∀ record source, s.index = some record → record.content ≠ .pending source := by
    intro record source hrecord hpending
    rcases h.taken record source hrecord hpending with hput | ⟨i, w, hw, -⟩
    · rw [hq.puts] at hput
      cases hput
    · rw [hnone] at hw
      cases hw
  have hvector : ∀ record vector, s.index = some record → record.content = .generated vector →
      ∃ state, s.current = some state ∧ textOf c state ≠ "" ∧ vector = c.embed (textOf c state) := by
    intro record vector hrecord hgenerated
    obtain ⟨source, hsource, htext, hvector⟩ : ∃ source,
        Genuine c s.present record.sourceRevision source ∧ VectorOf c source vector := by
      have hsound := h.index record hrecord
      rwa [Sound, hgenerated] at hsound
    have hlast : record.sourceRevision = s.last := by
      unfold Held at hheld
      split at hheld
      · rw [hheld] at hrecord
        cases hrecord
      · rcases hheld with ⟨_, hrecord', hlast⟩ | ⟨hnone, -⟩
        · rw [hrecord, Option.some.injEq] at hrecord'
          exact hrecord' ▸ hlast
        · rw [hnone] at hrecord
          cases hrecord
    obtain ⟨state, hstate, hpending⟩ := bind_eq_some_iff.1 (hsource.2 hlast)
    have htextOf : textOf c state = getSourceText c source := by rw [textOf, hpending, elim_some]
    exact ⟨state, hstate, htextOf ▸ htext, htextOf ▸ hvector⟩
  constructor
  · constructor
    · rintro ⟨record, vector, hrecord, hgenerated⟩
      obtain ⟨state, hstate, htext, -⟩ := hvector record vector hrecord hgenerated
      exact ⟨state, hstate, htext⟩
    · rintro ⟨state, hstate, htext⟩
      unfold Held at hheld
      rw [hstate, bind_some] at hheld
      cases hsource : pendingSource c state with
      | none => exact absurd (by rw [textOf, hsource]; rfl) htext
      | some source =>
        rw [hsource] at hheld
        rcases hheld with ⟨record, hrecord, -⟩ | ⟨-, hempty⟩
        · cases hcontent : record.content with
          | pending source' => exact absurd hcontent (hdone record source' hrecord)
          | generated vector => exact ⟨record, vector, hrecord, hcontent⟩
        · exact absurd (by rw [textOf, hsource]; exact hempty) htext
  · intro record vector hrecord hgenerated
    obtain ⟨state, hstate, -, heq⟩ := hvector record vector hrecord hgenerated
    exact ⟨state, hstate, heq⟩

/-! ## Steps -/

theorem Inv.change (h : Inv c s) {change : Change} (hnew : s.last < change.revision) :
    Inv c { s with last := change.revision, current := change.state, feed := s.feed ++ [change] } where
  index record hrecord := (h.index record hrecord).newer hnew
  puts put hput := (h.puts put hput).newer hnew
  workers i w hw := (h.workers i w hw).newer hnew
  __ := h
  saving revision source hsaving := (h.saving revision source hsaving).newer hnew
  feed := by
    intro old hold
    rw [← append_assoc, mem_append, mem_singleton] at hold
    rcases hold with hold | rfl
    · have := (h.feed old hold).1
      exact ⟨by dsimp only; omega, fun heq => absurd heq (by dsimp only; omega)⟩
    · exact ⟨le_refl _, fun _ => rfl⟩
  latest := by
    intro last hlast
    rw [← append_assoc, List.getLast?_concat, Option.some.injEq] at hlast
    rw [← hlast]
    rfl
  owed hfeed := absurd hfeed (by simp)

theorem Inv.watch (h : Inv c s) {change : Change} {rest : List Change} (hhand : s.hand = none)
    (hfeed : s.feed = change :: rest) : Inv c (s.watch c change rest) := by
  have hchanges := h.feed
  have hlatest := h.latest
  rw [hhand, hfeed, toList_none, nil_append] at hchanges hlatest
  unfold State.watch
  split
  · split
    · refine { h with feed := ?_, latest := ?_, owed := nofun }
      · intro old hold
        rw [hhand] at hold
        exact hchanges old (mem_cons_of_mem _ hold)
      · intro last hlast
        rw [hhand, toList_none, nil_append] at hlast
        refine hlatest last ?_
        rw [List.getLast?_cons, hlast]
        rfl
    · exact { h with feed := hchanges, latest := hlatest, owed := nofun }
  · exact { h with feed := hchanges, latest := hlatest, owed := nofun }

/-- Hop 1 sets out with a change of the entity. -/
theorem genuine_hop1Of (hle : change.revision ≤ present.revision)
    (heq : change.revision = present.revision → change.state = present.state)
    (h : (hop1Of c change).saving? = some (revision, source)) :
    Genuine c present revision source := by
  unfold hop1Of at h
  split at h
  · cases h
  · next _ hsrc =>
    obtain ⟨rfl, rfl⟩ := h
    exact ⟨hle, fun hrev => heq hrev ▸ hsrc⟩

theorem paying_hop1Of (hhop : s.hop1 = hop1Of c s.present) : Paying c s := by
  unfold Paying
  rw [hhop, hop1Of]
  cases hsource : s.present.state.bind (pendingSource c) with
  | none => exact hsource
  | some source => rfl

/-- Hop 1 sets out with the change in hand. -/
theorem Inv.acquire (h : Inv c s) {change : Change} (hhand : s.hand = some change) :
    Inv c { s with hand := none, hop1 := hop1Of c change } := by
  have hchanges := h.feed
  have hlatest := h.latest
  rw [hhand] at hchanges hlatest
  have hmem := hchanges change (by simp)
  refine { h with saving := ?_, feed := ?_, latest := ?_, owed := ?_ }
  · exact fun revision source hsaving => genuine_hop1Of hmem.1 hmem.2 hsaving
  · exact fun old hold => hchanges old (mem_cons_of_mem _ hold)
  · intro last hlast
    refine hlatest last ?_
    rw [toList_none, nil_append] at hlast
    rw [toList_some, singleton_append, List.getLast?_cons, hlast]
    rfl
  · intro hfeed _ _ _
    have hpresent : change = s.present := hlatest change (by rw [hfeed]; rfl)
    exact paying_hop1Of (by dsimp only; rw [hpresent]; rfl)

/-- Hop 1 sets out with the entity as it is. -/
theorem Inv.reconcile (h : Inv c s) {n : ℕ} :
    Inv c { s with flushing := n, hop1 := hop1Of c s.present } :=
  { h with
    saving := fun _ _ hsaving => genuine_hop1Of (le_refl _) (fun _ => rfl) hsaving
    owed := fun _ _ _ _ => paying_hop1Of rfl }

/-- What a worker has read is out of date once the key moves on. -/
theorem Inv.seen_moved (h : Inv c s) {P : Worker Vec → Prop} :
    ∀ i w, s.workers.lookup i = some w → ∀ vector attempt seen,
      w.phase = .writing vector attempt seen → seen ≤ s.kv + 1 ∧ (s.kv + 1 = seen → P w) := by
  intro i w hw vector attempt seen hphase
  have hle := (h.seen i w hw vector attempt seen hphase).1
  exact ⟨by omega, fun heq => absurd heq (by omega)⟩

theorem Inv.hop1Delete (h : Inv c s) (hhop : s.hop1 = .delete) :
    Inv c s.deleteEmbedding.converged := by
  refine { h with index := nofun, seen := h.seen_moved, saving := nofun, stranded := rfl,
                  owed := ?_, taken := nofun }
  intro hfeed hhand hqueued hflushing
  have hpaying := h.owed hfeed hhand hqueued hflushing
  rw [Paying, hhop] at hpaying
  exact (held_none (show s.deleteEmbedding.converged.current.bind _ = none from hpaying)).2 rfl

/-- What hop 1 saves is genuine, and of the present revision once nothing else is under way. -/
theorem Inv.saves (h : Inv c s) (hhop : s.hop1.saving? = some (revision, source)) :
    Genuine c s.present revision source ∧
      (s.feed = [] → s.hand = none → s.queued = false → s.flushing = 0 → revision = s.last) := by
  refine ⟨h.saving revision source hhop, fun hfeed hhand hqueued hflushing => ?_⟩
  have hpaying := h.owed hfeed hhand hqueued hflushing
  unfold Paying at hpaying
  split at hpaying <;> simp_all [Hop1.saving?]

variable {attempt : ℕ}

theorem Inv.hop1Read (h : Inv c s) (hhop : s.hop1 = .reading revision source attempt) :
    Inv c (s.hop1Read revision source attempt) := by
  obtain ⟨hsaving, hpays⟩ := h.saves (show s.hop1.saving? = some (revision, source) by rw [hhop]; rfl)
  have hwriting : ∀ seen, Inv c { s with hop1 := .writing revision source attempt seen } := by
    intro seen
    refine { h with saving := ?_, owed := hpays }
    rintro _ _ ⟨⟩
    exact hsaving
  unfold State.hop1Read
  split
  · exact hwriting none
  next record hindex =>
  split
  · split
    · next _ =>
      -- the record stands: it is of the present revision, if hop 1 saves that
      refine { h with saving := nofun, stranded := rfl, owed := ?_ }
      intro hfeed hhand hqueued hflushing
      have hlast := hpays hfeed hhand hqueued hflushing
      have hle : record.sourceRevision ≤ s.last := (h.index record hindex).revision_le
      have heq : record.sourceRevision = s.last := by omega
      obtain ⟨src, hsrc⟩ := (h.index record hindex).exists_source heq
      exact (held_some (show s.converged.current.bind _ = some src from hsrc)).2
        (.inl ⟨record, hindex, heq⟩)
    · exact hwriting (some s.kv)
  · exact hwriting (some s.kv)

/-- A pending record is put. -/
theorem Inv.hop1Write (h : Inv c s) {seen : Option ℕ}
    (hhop : s.hop1 = .writing revision source attempt seen)
    (hcare : s.unmoved seen = false → attempt + 1 < maxCASRetries) :
    Inv c (s.hop1Write revision source attempt seen) := by
  obtain ⟨hsaving, hpays⟩ := h.saves (show s.hop1.saving? = some (revision, source) by rw [hhop]; rfl)
  unfold State.hop1Write
  split
  · refine { h with index := ?_, puts := ?_, seen := h.seen_moved, saving := nofun, stranded := rfl,
                    owed := ?_, taken := ?_ }
    · rintro record ⟨⟩
      exact hsaving
    · intro put hput
      rcases mem_append.1 hput with hold | hnew
      · exact h.puts put hold
      · rw [mem_singleton.1 hnew]
        exact hsaving
    · intro hfeed hhand hqueued hflushing
      have hlast := hpays hfeed hhand hqueued hflushing
      exact (held_some (show (s.put ⟨.pending source, revision⟩).converged.current.bind _ = some source
        from hsaving.2 hlast)).2 (.inl ⟨_, rfl, hlast⟩)
    · rintro record _ ⟨⟩ -
      exact .inl (mem_append_right _ (mem_singleton.2 rfl))
  · next hmoved =>
    rw [if_pos (hcare (by simpa using hmoved))]
    refine { h with saving := ?_, owed := hpays }
    rintro _ _ ⟨⟩
    exact hsaving

variable {i : ℕ}

theorem Inv.takeEntry (h : Inv c s) {entry : ℕ} {record : Record Vec} {rest : List (ℕ × Record Vec)}
    (hfree : s.workers.lookup i = none) (hputs : s.puts = (entry, record) :: rest) :
    Inv c (s.takeEntry i entry record rest) := by
  have hsound := h.puts (entry, record) (by rw [hputs]; exact mem_cons_self)
  have hrest : ∀ put ∈ rest, Sound c s.present put.2 := by
    intro put hput
    exact h.puts put (by rw [hputs]; exact mem_cons_of_mem _ hput)
  unfold State.takeEntry
  split
  · next _ hcontent =>
    rw [Sound, hcontent] at hsound
    refine { h with puts := hrest, workers := ?_, vectors := ?_, seen := ?_, taken := ?_ }
    · exact forall_lookup_insert hsound h.workers
    · exact forall_lookup_insert nofun h.vectors
    · exact forall_lookup_insert nofun h.seen
    · intro record' source' hrecord hpending
      rcases h.taken record' source' hrecord hpending with hput | ⟨j, w, hw, hentry, hrev, hphase⟩
      · rw [hputs, mem_cons] at hput
        rcases hput with heq | hput
        · obtain ⟨hkv, rfl⟩ := Prod.mk.inj heq
          exact .inr ⟨i, _, AList.lookup_insert _, hkv.symm, rfl, trivial⟩
        · exact .inl hput
      · have hji : j ≠ i := ne_of_apply_ne s.workers.lookup (by simp [hfree, hw])
        exact .inr ⟨j, w, by rw [← hw]; exact AList.lookup_insert_ne hji, hentry, hrev, hphase⟩
  · next _ hcontent =>
    refine { h with puts := hrest, taken := ?_ }
    intro record' source' hrecord hpending
    refine (h.taken record' source' hrecord hpending).imp (fun hput => ?_) id
    rw [hputs, mem_cons] at hput
    rcases hput with heq | hput
    · rw [← (Prod.mk.inj heq).2, hpending] at hcontent
      cases hcontent
    · exact hput

variable {w : Worker Vec}

theorem Inv.setWorker (h : Inv c s) (hw : s.workers.lookup i = some w)
    (hvector : ∀ vector, phase.vector? = some vector → VectorOf c w.source vector)
    (hseen : ∀ vector attempt seen, phase = .writing vector attempt seen →
      seen ≤ s.kv ∧ (s.kv = seen →
      ∃ record, s.index = some record ∧ record.sourceRevision ≤ w.revision))
    (hkeeps : ∀ record source, s.index = some record → record.content = .pending source →
      w.revision = record.sourceRevision → w.phase.Unbeaten s.kv → phase.Unbeaten s.kv) :
    Inv c (s.setWorker i { w with phase := phase }) := by
  refine { h with workers := ?_, vectors := ?_, seen := ?_, taken := ?_ }
  · exact forall_lookup_insert (h.workers i w hw) h.workers
  · exact forall_lookup_insert hvector h.vectors
  · exact forall_lookup_insert hseen h.seen
  · intro record source hrecord hpending
    refine (h.taken record source hrecord hpending).imp id ?_
    rintro ⟨j, w', hw', hentry, hrev, hphase⟩
    by_cases hji : j = i
    · subst hji
      rw [hw] at hw'
      cases hw'
      exact ⟨j, _, AList.lookup_insert _, hentry, hrev, hkeeps record source hrecord hpending hrev hphase⟩
    · exact ⟨j, w', by rw [← hw']; exact AList.lookup_insert_ne hji, hentry, hrev, hphase⟩

/-- A worker that was overtaken, or is done, goes. -/
theorem Inv.eraseWorker (h : Inv c s) (hw : s.workers.lookup i = some w)
    (hbeaten : ¬ w.phase.Unbeaten s.kv) : Inv c { s with workers := s.workers.erase i } := by
  refine { h with workers := ?_, vectors := ?_, seen := ?_, taken := ?_ }
  · exact forall_lookup_erase h.workers
  · exact forall_lookup_erase h.vectors
  · exact forall_lookup_erase h.seen
  · intro record source hrecord hpending
    refine (h.taken record source hrecord hpending).imp id ?_
    rintro ⟨j, w', hw', hentry, hrev, hphase⟩
    have hji : j ≠ i := by
      rintro rfl
      rw [hw, Option.some.injEq] at hw'
      exact hbeaten (hw' ▸ hphase)
    exact ⟨j, w', by rw [← hw']; exact AList.lookup_erase_ne hji, hentry, hrev, hphase⟩

/-- **A worker without a text deletes the record**, which loses nothing unless the record is
newer than the worker's own. -/
theorem Inv.workerDelete (h : Inv c s) (hw : s.workers.lookup i = some w)
    (htext : getSourceText c w.source = "")
    (hcare : ∀ record, s.index = some record → record.sourceRevision ≤ w.revision) :
    Inv c s.deleteEmbedding := by
  refine { h with index := nofun, seen := h.seen_moved, owed := ?_, taken := nofun }
  intro hfeed hhand hqueued hflushing
  refine (h.owed hfeed hhand hqueued hflushing).of_held rfl rfl rfl fun hheld => ?_
  cases hsource : s.current.bind (pendingSource c) with
  | none => exact (held_none (show s.deleteEmbedding.current.bind _ = none from hsource)).2 rfl
  | some source =>
    refine (held_some (show s.deleteEmbedding.current.bind _ = some source from hsource)).2 (.inr ⟨rfl, ?_⟩)
    rcases (held_some hsource).1 hheld with ⟨record, hrecord, hlast⟩ | ⟨-, hempty⟩
    · -- the record is of the present revision, and so the worker's own is
      have hgenuine := h.workers i w hw
      have heq : w.revision = s.last := Nat.le_antisymm hgenuine.1 (hlast ▸ hcare record hrecord)
      have hsame : s.current.bind (pendingSource c) = some w.source := hgenuine.2 heq
      rw [hsource, Option.some.injEq] at hsame
      exact hsame ▸ htext
    · exact hempty

/-- **A worker writes its vector**, over a record no newer than its own. -/
theorem Inv.putGenerated (h : Inv c s) (hw : s.workers.lookup i = some w)
    (hphase : w.phase = .writing vector attempt s.kv) :
    Inv c (s.put ⟨.generated vector, w.revision⟩) := by
  have hgenuine := h.workers i w hw
  have hsound : Sound c s.present ⟨.generated vector, w.revision⟩ :=
    ⟨w.source, hgenuine, h.vectors i w hw vector (by rw [hphase]; rfl)⟩
  obtain ⟨_, hrecord, hle⟩ := (h.seen i w hw vector attempt s.kv hphase).2 rfl
  refine { h with index := ?_, puts := ?_, seen := h.seen_moved, owed := ?_, taken := ?_ }
  · rintro _ ⟨⟩
    exact hsound
  · intro put hput
    rcases mem_append.1 hput with hold | hnew
    · exact h.puts put hold
    · rw [mem_singleton.1 hnew]
      exact hsound
  · intro hfeed hhand hqueued hflushing
    refine (h.owed hfeed hhand hqueued hflushing).of_held rfl rfl rfl fun hheld => ?_
    cases hsource : s.current.bind (pendingSource c) with
    | none =>
      rw [held_none hsource, hrecord] at hheld
      cases hheld
    | some source =>
      rw [held_some hsource, hrecord] at hheld
      rcases hheld with ⟨_, hrecord', hlast⟩ | ⟨hnone, -⟩
      · rw [Option.some.injEq] at hrecord'
        have heq : w.revision = s.last := Nat.le_antisymm hgenuine.1 (hlast ▸ hrecord' ▸ hle)
        exact (held_some (show (s.put _).current.bind _ = some source from hsource)).2
          (.inl ⟨_, rfl, heq⟩)
      · cases hnone
  · rintro _ _ ⟨⟩ hpending
    cases hpending

/-- A worker finds the vector of its text. -/
theorem Inv.generate (h : Inv c s) {text : String} :
    Inv c (s.generate c text).2 ∧ (s.generate c text).1 = c.embed text ∧
      (s.generate c text).2.workers = s.workers ∧ (s.generate c text).2.kv = s.kv := by
  unfold State.generate
  split
  · next vector hvector => exact ⟨h, h.dedup text vector hvector, rfl, rfl⟩
  · refine ⟨{ h with dedup := ?_ }, rfl, rfl, rfl⟩
    exact forall_lookup_insert rfl h.dedup

/-- **A step of a worker.** -/
theorem Inv.work (h : Inv c s) (hw : s.workers.lookup i = some w)
    (hcare : careful c s (.work i)) : Inv c (s.work c i w) := by
  unfold State.work
  split
  · next hphase =>
    dsimp only
    split
    · next htext =>
      have hdeletes : w.deletes c := by
        rw [Worker.deletes, hphase]
        exact decide_eq_true htext
      have holder : ∀ record, s.index = some record → record.sourceRevision ≤ w.revision := by
        intro record hrecord
        simpa [careful, hw, hdeletes, hrecord] using hcare
      exact (h.workerDelete hw htext holder).setWorker hw nofun nofun nofun
    · next htext =>
      obtain ⟨hinv, hvector, hworkers, hkv⟩ := @Inv.generate _ c s h (getSourceText c w.source)
      refine hinv.setWorker (by rw [hworkers]; exact hw) ?_ nofun fun _ _ _ _ _ _ => rfl
      rintro vector ⟨⟩
      exact ⟨htext, hvector⟩
  · next vector attempt hphase =>
    have hvector := h.vectors i w hw vector (by rw [hphase]; rfl)
    split
    · next hindex =>
      refine h.setWorker hw nofun nofun ?_
      intro record source hrecord
      rw [hindex] at hrecord
      cases hrecord
    · next record hindex =>
      split
      · next hnewer =>
        refine h.setWorker hw nofun nofun ?_
        intro _ source hrecord _ hrev
        rw [hindex, Option.some.injEq] at hrecord
        rw [hrev, hrecord] at hnewer
        exact absurd hnewer (Nat.lt_irrefl _)
      · next hnewer =>
        refine h.setWorker hw ?_ ?_ ?_
        · rintro _ ⟨⟩
          exact hvector
        · rintro _ _ _ ⟨⟩
          exact ⟨le_refl _, fun _ => ⟨record, hindex, Nat.not_lt.1 hnewer⟩⟩
        · intro _ _ _ _ _ hfresh
          rw [hphase] at hfresh
          exact ⟨hfresh, rfl⟩
  · next vector attempt _ hphase =>
    split
    · next hkv =>
      subst hkv
      refine (h.putGenerated hw hphase).setWorker hw nofun nofun ?_
      rintro _ _ ⟨⟩ hpending
      cases hpending
    · next hkv =>
      have hbeaten : ¬ w.phase.Unbeaten s.kv := by
        rw [hphase]
        exact fun hfresh => hkv hfresh.2.symm
      split
      · refine h.setWorker hw ?_ nofun fun _ _ _ _ _ hfresh => absurd hfresh hbeaten
        rintro _ ⟨⟩
        exact h.vectors i w hw vector (by rw [hphase]; rfl)
      · exact h.eraseWorker hw hbeaten
  · next hphase =>
    rw [h.stranded]
    have hinv := h.eraseWorker hw (by rw [hphase]; exact id)
    exact { hinv with stranded := rfl }

/-- **Every careful step keeps the invariant.** -/
theorem Inv.step (h : Inv c s) {event : Event} (hcare : careful c s event)
    (hstep : step c s event = some s') : Inv c s' := by
  cases event with
      (simp only [GraphEmbedding.step] at hstep; (try split at hstep <;> try contradiction); try cases hstep)
  | upsert revision state =>
    rename_i hnew
    exact @Inv.change _ c s h ⟨revision, some state⟩ hnew
  | remove revision =>
    rename_i hnew
    exact @Inv.change _ c s h ⟨revision, none⟩ hnew
  | watch =>
    rename_i hhand hfeed
    exact h.watch hhand hfeed
  | acquire =>
    rename_i hhand _
    exact h.acquire hhand
  | flush => exact { h with owed := nofun }
  | reconcile => exact h.reconcile
  | repair => exact h.reconcile
  | advance =>
    simp only [State.advance] at hstep
    split at hstep
    · cases hstep
    · next hhop =>
      cases hstep
      exact h.hop1Delete hhop
    · next hhop =>
      cases hstep
      exact h.hop1Read hhop
    · next hhop =>
      cases hstep
      refine h.hop1Write hhop fun hmoved => ?_
      simpa [careful, hhop, hmoved] using hcare
  | take i =>
    rename_i hfree hputs
    exact h.takeEntry hfree hputs
  | work i =>
    obtain ⟨w, hw, rfl⟩ := map_eq_some_iff.1 hstep
    exact h.work hw hcare
  | share text => exact { h with dedup := forall_lookup_insert rfl h.dedup }

/-- **The index converges**: after every run in which no worker deletes a newer record, and
hop 1 does not give up on the key, it is what the entity asks for as soon as all is
quiet. -/
theorem index_converges (c : Config Vec) {events : List Event} {s : State Vec}
    (hrun : run (step c) State.initial events = some s)
    (hcare : Along (step c) (fun s event => careful c s event = true) State.initial events)
    (hq : Quiescent s) : Converged c s :=
  (run_invariant_along
    (fun _ _ _ h hcare hstep => Inv.step h hcare hstep) inv_initial hcare hrun).converged hq

/-! ## Two runs -/

/-- A pipeline that takes the first triple for the text, finds nothing in its stores, and
whose vectors are texts. -/
def plain : Config String where
  coalescing := false
  extractText state :=
    match state.triples with
    | { object := .text value, .. } :: _ => value
    | _ => ""
  registered _ := true
  fetchText _ := ""
  truncate := id
  embed := id

/-- A document whose body is kept in a store. -/
def offloaded : EntityState where
  id := "doc"
  triples := []
  storageRef := some ⟨"objects", "doc.txt", "text/plain", 0⟩
  messageType := ⟨"content", "document", "v1"⟩
  version := 1
  updatedAt := 1

/-- The document with a title, and no body. -/
def titled : EntityState :=
  { offloaded with
    triples := [{ subject := "doc", predicate := "content.title", object := .text "hello" }]
    storageRef := none
    version := 2 }

/-- All is quiet, as far as it can be computed. -/
def State.quiet (s : State Vec) : Bool :=
  s.feed.isEmpty && s.hand.isNone && !s.queued && s.flushing == 0 && (s.hop1 matches .idle) &&
    s.stranded.isNone && s.puts.isEmpty && s.workers.entries.isEmpty

theorem quiescent_of_quiet (h : s.quiet) : Quiescent s := by
  simp only [State.quiet, Bool.and_eq_true] at h
  obtain ⟨⟨⟨⟨⟨⟨⟨hfeed, hhand⟩, hqueued⟩, hflushing⟩, hhop⟩, hstranded⟩, hputs⟩, hworkers⟩ := h
  refine ⟨List.isEmpty_iff.1 hfeed, isNone_iff_eq_none.1 hhand, by simpa using hqueued,
    by simpa using hflushing, ?_, isNone_iff_eq_none.1 hstranded, List.isEmpty_iff.1 hputs,
    AList.ext (List.isEmpty_iff.1 hworkers)⟩
  cases hs : s.hop1 with
  | idle => rfl
  | delete => simp [hs] at hhop
  | reading => simp [hs] at hhop
  | writing => simp [hs] at hhop

def titleRun : List Event :=
  [.upsert 1 titled, .watch, .acquire, .advance, .advance, .take 0, .work 0, .work 0, .work 0, .work 0,
    .take 0]

theorem index_converges_titled :
    ∃ s, run (step plain) State.initial titleRun = some s ∧ Converged plain s := by
  refine exists_end (P := fun s => s.quiet) (by decide +kernel) fun s hrun hs => ?_
  exact index_converges plain hrun (by decide +kernel) (quiescent_of_quiet hs)

/-- The document is stored without a title, and a worker reads its body; it gets a title,
which another worker embeds; then the first worker, which has found nothing to embed,
deletes the record. -/
def lateDelete : List Event :=
  [.upsert 1 offloaded, .watch, .acquire, .advance, .advance, .take 0,
    .upsert 2 titled, .watch, .acquire, .advance, .advance, .take 1, .work 1, .work 1, .work 1, .work 1,
    .work 0, .work 0, .take 0]

/-- **The vector of the title is gone**, and nothing is left to do. -/
theorem newer_vector_deleted :
    ∃ s, run (step plain) State.initial lateDelete = some s ∧ Quiescent s ∧ s.index = none ∧
      s.current = some titled ∧ textOf plain titled = "hello" := by
  refine exists_end (P := fun s => s.quiet ∧ s.index = none ∧ s.current = some titled)
    (by decide +kernel) fun s _ hs => ?_
  exact ⟨quiescent_of_quiet hs.1, hs.2.1, hs.2.2, by decide⟩

end SemStreams.GraphEmbedding
