import SemStreams.Config.Manager
import SemStreams.Lib.Bucket
import SemStreams.Lib.Run
import SemStreams.Lib.Slots
/-!
# config — the components in memory and those of the bucket

Other processes write component keys; so do calls of `PutComponentToKV` and
`DeleteComponentFromKV`, which then make the change in memory themselves. The watcher hands
every change to `handleUpdate`, in the order of the bucket, and later. One watermark, the
highest revision of an own put that is done, tells it which changes to leave alone.

A step is what one goroutine does under one lock: a write of the bucket, a change in memory,
a raise of the watermark, a look at it. The watcher's look and the change it then makes are
two steps.
-/

namespace SemStreams.ConfigManager

open List Option

variable {Raw Service Component : Type}

/-- A write of a component's key, `none` for a deletion. -/
structure Change (Raw : Type) where
  revision : ℕ
  name : String
  value : Option Raw

def Change.key (c : Change Raw) : String := componentKey c.name

/-- A call in progress: its write is made, and it is to be applied; or it is applied, and the
watermark is to be raised. -/
inductive Call (Raw : Type) where
  | put (change : Change Raw)
  | delete (change : Change Raw)
  | applied (revision : ℕ)

/-- The change a call has still to apply. -/
def Call.pending : Call Raw → Option (Change Raw)
  | put change => some change
  | delete change => some change
  | applied _ => none

structure State (Raw Service Component : Type) where
  bucket : Bucket String Raw
  memory : Config Raw Service Component
  /-- What the watcher has not been handed. -/
  feed : List (Change Raw)
  /-- What `handleUpdate` has found to be news, and has not applied yet. -/
  hand : Option (Change Raw)
  engineHighWaterRev : ℕ
  calls : AList fun _ : ℕ => Call Raw

open State

inductive Event (Raw : Type) where
  | foreign (name : String) (value : Option Raw)
  | put (i : ℕ) (name : String) (raw : Raw)
  | delete (i : ℕ) (name : String)
  | deleteMissing (i : ℕ) (name : String)
  | apply (i : ℕ)
  | bump (i : ℕ)
  | deliver
  | update

variable (codec : Codec Raw Service Component)

namespace State

variable (s : State Raw Service Component)

/-- The change a write now makes. -/
def next (name : String) (value : Option Raw) : Change Raw := ⟨s.bucket.lastSeq + 1, name, value⟩

/-- A write of the bucket, which the watcher will be handed. -/
def write (name : String) (value : Option Raw) : State Raw Service Component :=
  { s with
    bucket := s.bucket.write (componentKey name) value
    feed := s.feed ++ [s.next name value] }

/-- `updateConfig`, on the configuration in memory. -/
def apply (c : Change Raw) : State Raw Service Component :=
  { s with memory := afterUpdate codec s.memory c.key c.value }

def setCall (i : ℕ) (call : Call Raw) : State Raw Service Component :=
  { s with calls := s.calls.insert i call }

def endCall (i : ℕ) : State Raw Service Component := { s with calls := s.calls.erase i }

/-- The steps of a call after its write. -/
def applyCall (i : ℕ) : Call Raw → Option (State Raw Service Component)
  | .put c =>
    match updateConfig codec s.memory c.key c.value with
    | .error _ => some (s.endCall i)
    | .ok _ => some ((s.apply codec c).setCall i (.applied c.revision))
  | .delete c => some ((s.apply codec c).endCall i)
  | .applied _ => none

/-- `bumpEngineHighWater`, and the return of the call. -/
def bumpCall (i : ℕ) : Call Raw → Option (State Raw Service Component)
  | .applied revision =>
    some ({ s with engineHighWaterRev := max s.engineHighWaterRev revision }.endCall i)
  | _ => none

/-- `handleUpdate` up to its look at the watermark. -/
def deliver : Option (State Raw Service Component) :=
  match s.hand, s.feed with
  | none, c :: feed =>
    if c.revision ≠ 0 ∧ c.revision ≤ s.engineHighWaterRev then some { s with feed := feed }
    else some { s with feed := feed, hand := some c }
  | _, _ => none

end State

/-- **One step.** Names are plain and values accepted. A deletion of a key that holds nothing
may write nothing. -/
def step (s : State Raw Service Component) : Event Raw → Option (State Raw Service Component)
  | .foreign name value =>
    if Plain name ∧ value.all (fun raw => (acceptComponent codec raw).isSome) then
      some (s.write name value)
    else none
  | .put i name raw =>
    if Plain name ∧ (acceptComponent codec raw).isSome ∧ s.calls.lookup i = none then
      some ((s.write name (some raw)).setCall i (.put (s.next name (some raw))))
    else none
  | .delete i name =>
    if Plain name ∧ s.calls.lookup i = none then
      some ((s.write name none).setCall i (.delete (s.next name none)))
    else none
  | .deleteMissing i name =>
    if Plain name ∧ s.calls.lookup i = none ∧ s.bucket.get (componentKey name) = none then
      some (s.setCall i (.delete ⟨s.bucket.revision (componentKey name), name, none⟩))
    else none
  | .apply i => (s.calls.lookup i).bind (s.applyCall codec i)
  | .bump i => (s.calls.lookup i).bind (s.bumpCall i)
  | .deliver => s.deliver
  | .update => s.hand.map fun c => { s.apply codec c with hand := none }

/-- Nothing is left to do. -/
structure Quiescent (s : State Raw Service Component) : Prop where
  feed : s.feed = []
  hand : s.hand = none
  calls : s.calls = ∅

/-- The component of a name, as the bucket has it. -/
def stored (s : State Raw Service Component) (name : String) : Option Component :=
  (s.bucket.get ("components." ++ name)).bind fun e => acceptComponent codec e.1

/-- **The components in memory are those of the bucket.** -/
def Converged (s : State Raw Service Component) : Prop :=
  ∀ name, s.memory.components.lookup name = stored codec s name

/-- The start: memory and bucket agree, and nothing is under way. -/
structure Initial (s : State Raw Service Component) : Prop where
  converged : Converged codec s
  valid : s.memory.validate codec = true
  highWater : s.engineHighWaterRev ≤ s.bucket.lastSeq
  quiescent : Quiescent s

/-! ## The condition on the steps -/

/-- A change that is the last of its key. -/
def State.latest (s : State Raw Service Component) (c : Change Raw) : Bool :=
  c.revision = s.bucket.revision c.key

/-- The last change of a key is in the hands of a call, or of the watcher, which has yet to
apply it. -/
def State.held (s : State Raw Service Component) (name : String) : Bool :=
  s.calls.entries.any (fun e => e.2.pending.any fun c => c.name = name && s.latest c) ||
    s.hand.any fun c => c.name = name && s.latest c

/-- The last change of a key is yet to be applied. -/
def State.coming (s : State Raw Service Component) (name : String) : Bool :=
  s.held name ||
    s.feed.any fun c => c.name = name && s.latest c && s.engineHighWaterRev < c.revision

/-- **The condition**: what is applied is the last change of its key, or that is yet to be
applied; and the watermark is not raised over an undelivered last change that is neither in
memory nor in hand. -/
def careful [DecidableEq Component] (s : State Raw Service Component) : Event Raw → Bool
  | .apply i =>
    (s.calls.lookup i).all fun call => call.pending.all fun c => s.latest c || s.coming c.name
  | .update => s.hand.all fun c => s.latest c || s.coming c.name
  | .bump i => (s.calls.lookup i).all fun call =>
    match call with
    | .applied revision => s.feed.all fun c =>
      !(s.latest c && c.revision ≤ revision && s.engineHighWaterRev < c.revision) ||
        s.memory.components.lookup c.name = stored codec s c.name || s.held c.name
    | _ => true
  | _ => true

variable {name : String}

theorem componentKey_ne (hname : Plain name) (h : name' ≠ name) :
    "components." ++ name' ≠ componentKey name := by
  rw [componentKey_of_plain hname]
  exact fun heq => h (String.append_right_inj _ |>.1 heq)

variable {s : State Raw Service Component}

theorem held_iff : s.held name ↔
      (∃ i call c, s.calls.lookup i = some call ∧ call.pending = some c ∧ c.name = name ∧
        s.latest c) ∨
        ∃ c, s.hand = some c ∧ c.name = name ∧ s.latest c := by
  simp only [held, Bool.or_eq_true, List.any_eq_true, Option.any_eq_true, Bool.and_eq_true,
    decide_eq_true_eq]
  refine or_congr ?_ Iff.rfl
  constructor
  · rintro ⟨⟨i, call⟩, hmem, c, hc, hname, hlatest⟩
    exact ⟨i, call, c, AList.mem_lookup_iff.2 hmem, hc, hname, hlatest⟩
  · rintro ⟨i, call, c, hcall, hc, hname, hlatest⟩
    exact ⟨⟨i, call⟩, AList.mem_lookup_iff.1 hcall, c, hc, hname, hlatest⟩

theorem coming_iff : s.coming name ↔
      s.held name ∨
        ∃ c ∈ s.feed, c.name = name ∧ s.latest c ∧ s.engineHighWaterRev < c.revision := by
  simp [coming, and_assoc]

/-! ## The invariant -/

/-- A change was made as it says: its name is plain, its value accepted, and where it is the
last of its key, the bucket holds its value. -/
structure Genuine (b : Bucket String Raw) (c : Change Raw) : Prop where
  plain : Plain c.name
  accepted : ∀ raw, c.value = some raw → (acceptComponent codec raw).isSome
  revision_le : c.revision ≤ b.lastSeq
  value : c.revision = b.revision c.key → (b.get c.key).map Prod.fst = c.value

def GenuineCall (b : Bucket String Raw) : Call Raw → Prop
  | .put c => Genuine codec b c
  | .delete c => Genuine codec b c
  | .applied revision => revision ≤ b.lastSeq

/-- **The invariant**: each name's component in memory is the bucket's, or the last change of
its key is yet to be applied. -/
structure Inv (s : State Raw Service Component) : Prop where
  valid : s.memory.validate codec = true
  highWater : s.engineHighWaterRev ≤ s.bucket.lastSeq
  feed : ∀ c ∈ s.feed, Genuine codec s.bucket c
  hand : ∀ c, s.hand = some c → Genuine codec s.bucket c
  calls : ∀ i call, s.calls.lookup i = some call → GenuineCall codec s.bucket call
  current : ∀ name, s.memory.components.lookup name = stored codec s name ∨ s.coming name = true

variable {codec} {call : Call Raw}

theorem GenuineCall.pending (h : GenuineCall codec s.bucket call)
    (hc : call.pending = some c) : Genuine codec s.bucket c := by
  cases call with
  | put change =>
    cases hc
    exact h
  | delete change =>
    cases hc
    exact h
  | applied revision => cases hc

/-- Nothing under way, memory and bucket agree. -/
theorem Inv.converged (h : Inv codec s) (hq : Quiescent s) : Converged codec s := by
  intro name
  refine (h.current name).resolve_right fun hcoming => ?_
  rw [coming_iff, held_iff, hq.feed, hq.hand, hq.calls] at hcoming
  rcases hcoming with (⟨i, _, c, hcall, -⟩ | ⟨c, hc, -⟩) | ⟨c, hc, -⟩
  · cases hcall
  · cases hc
  · cases hc

theorem inv_initial (h : Initial codec s) : Inv codec s where
  __ := h
  feed c hc := by
    rw [h.quiescent.feed] at hc
    cases hc
  hand c hc := by
    rw [h.quiescent.hand] at hc
    cases hc
  calls i call hcall := by
    rw [h.quiescent.calls, AList.lookup_empty] at hcall
    cases hcall
  current name := .inl (h.converged name)

/-! ## Writes of the bucket -/

variable {value : Option Raw} {c : Change Raw}

theorem key_ne (hname : Plain name) (hc : Plain c.name) (hne : c.name ≠ name) :
    c.key ≠ componentKey name := by
  rw [Change.key, componentKey_of_plain hc]
  exact componentKey_ne hname hne

theorem latest_write (hname : Plain name) (hc : Plain c.name) (hne : c.name ≠ name) :
    (s.write name value).latest c = s.latest c := by
  have hrev : (s.write name value).bucket.revision c.key = s.bucket.revision c.key :=
    Bucket.write_revision_of_ne (key_ne hname hc hne)
  rw [latest, latest, hrev]

theorem Genuine.write (h : Genuine codec s.bucket c) (hname : Plain name) :
    Genuine codec (s.write name value).bucket c := by
  refine ⟨h.plain, h.accepted, Nat.le_succ_of_le h.revision_le, fun hlatest => ?_⟩
  by_cases hne : c.name = name
  · have hle := h.revision_le
    have hrev : (s.write name value).bucket.revision c.key = s.bucket.lastSeq + 1 := by
      rw [Change.key, hne]
      exact Bucket.write_revision_self
    omega
  · have hkey := key_ne hname h.plain hne
    have hrev : (s.write name value).bucket.revision c.key = s.bucket.revision c.key :=
      Bucket.write_revision_of_ne hkey
    have hget : (s.write name value).bucket.get c.key = s.bucket.get c.key :=
      Bucket.write_get_of_ne hkey
    rw [hget]
    exact h.value (hlatest.trans hrev)

theorem GenuineCall.write (h : GenuineCall codec s.bucket call) (hname : Plain name) :
    GenuineCall codec (s.write name value).bucket call := by
  cases call with
  | put | delete => exact Genuine.write h hname
  | applied revision => exact Nat.le_succ_of_le h

theorem stored_write (hname : Plain name) (hne : name' ≠ name) :
    stored codec (s.write name value) name' = stored codec s name' := by
  have hget : (s.write name value).bucket.get ("components." ++ name') =
      s.bucket.get ("components." ++ name') := Bucket.write_get_of_ne (componentKey_ne hname hne)
  rw [stored, stored, hget]

theorem genuine_next (hname : Plain name)
    (hvalue : ∀ raw, value = some raw → (acceptComponent codec raw).isSome) :
    Genuine codec (s.write name value).bucket (s.next name value) where
  plain := hname
  accepted := hvalue
  revision_le := Nat.le_refl _
  value _ := by
    show (Bucket.get (s.bucket.write (componentKey name) value) (componentKey name)).map _ = value
    rw [Bucket.write_get_self, Option.map_map]
    exact Option.map_id'

theorem latest_next : (s.write name value).latest (s.next name value) :=
  decide_eq_true (Bucket.write_revision_self (b := s.bucket)).symm

/-- **A write is yet to be applied**: the watcher will be handed it. -/
theorem Inv.write (h : Inv codec s) (hname : Plain name)
    (hvalue : ∀ raw, value = some raw → (acceptComponent codec raw).isSome) :
    Inv codec (s.write name value) where
  valid := h.valid
  highWater := Nat.le_succ_of_le h.highWater
  feed c hc := by
    rcases mem_append.1 hc with hc | hc
    · exact (h.feed c hc).write hname
    · rw [mem_singleton.1 hc]
      exact genuine_next hname hvalue
  hand c hc := (h.hand c hc).write hname
  calls i call hcall := (h.calls i call hcall).write hname
  current name' := by
    by_cases hne : name' = name
    · subst hne
      refine .inr (coming_iff.2 (.inr ⟨s.next name' value, ?_, rfl, latest_next, ?_⟩))
      · exact mem_append_right _ (mem_singleton.2 rfl)
      · exact Nat.lt_succ_of_le h.highWater
    rcases h.current name' with hcurrent | hcoming
    · left
      rw [stored_write hname hne]
      exact hcurrent
    right
    rw [coming_iff, held_iff] at hcoming ⊢
    -- the same change is coming, since its key was not written
    have hsame : ∀ c : Change Raw, Genuine codec s.bucket c → c.name = name' → s.latest c →
        (s.write name value).latest c := fun c hc hcname hlatest => by
      rw [latest_write hname hc.plain (hcname ▸ hne)]
      exact hlatest
    rcases hcoming with (⟨i, call, c, hcall, hc, hcname, hlatest⟩ | ⟨c, hc, hcname, hlatest⟩) |
      ⟨c, hc, hcname, hlatest, hlt⟩
    · exact .inl (.inl ⟨i, call, c, hcall, hc, hcname,
        hsame c ((h.calls i call hcall).pending hc) hcname hlatest⟩)
    · exact .inl (.inr ⟨c, hc, hcname, hsame c (h.hand c hc) hcname hlatest⟩)
    · exact .inr ⟨c, mem_append_left _ hc, hcname, hsame c (h.feed c hc) hcname hlatest, hlt⟩

variable {i : ℕ}

/-- A call is begun: what it holds is yet to be applied by it, too. -/
theorem Inv.setCall (h : Inv codec s) (hfree : s.calls.lookup i = none)
    (hcall : GenuineCall codec s.bucket call) : Inv codec (s.setCall i call) where
  __ := h
  calls := forall_lookup_insert hcall h.calls
  current name := by
    refine (h.current name).imp id fun hcoming => ?_
    rw [coming_iff, held_iff] at hcoming ⊢
    refine hcoming.imp (Or.imp ?_ id) id
    rintro ⟨j, other, c, hother, hc⟩
    refine ⟨j, other, c, ?_, hc⟩
    have hne : j ≠ i := ne_of_apply_ne s.calls.lookup (by simp [hfree, hother])
    exact (AList.lookup_insert_ne hne).trans hother

/-! ## Changes in memory -/

/-- An accepted change is what the name's component is afterwards. -/
theorem lookup_apply (h : s.memory.validate codec) (hc : Genuine codec s.bucket c)
    (name : String) :
    (s.apply codec c).memory.components.lookup name =
      if name = c.name then c.value.bind (acceptComponent codec)
      else s.memory.components.lookup name := by
  have hupdate := afterUpdate_componentKey hc.plain h c.value
  show (afterUpdate codec s.memory c.key c.value).components.lookup name = _
  rw [Change.key, hupdate]
  cases hvalue : c.value with
  | none =>
    by_cases hname : name = c.name
    · rw [if_pos hname, hname]
      exact AList.lookup_erase _ _
    · rw [if_neg hname]
      exact AList.lookup_erase_ne hname
  | some raw =>
    obtain ⟨_, hcomponent⟩ := isSome_iff_exists.1 (hc.accepted raw hvalue)
    simp only [hcomponent, bind_some]
    by_cases hname : name = c.name
    · rw [if_pos hname, hname]
      exact AList.lookup_insert _
    · rw [if_neg hname]
      exact AList.lookup_insert_ne hname

/-- **A change is applied**, and taken from whoever held it. Where it was not the last of its
key, that one is yet to be applied. -/
theorem Inv.apply (h : Inv codec s) (hc : Genuine codec s.bucket c)
    (hcare : s.latest c ∨ s.coming c.name) (hbucket : s'.bucket = s.bucket)
    (hmemory : s'.memory = (s.apply codec c).memory) (hfeed : s'.feed = s.feed)
    (hwater : s'.engineHighWaterRev = s.engineHighWaterRev)
    (hhand : ∀ d, s'.hand = some d → s.hand = some d)
    (hcalls : ∀ i call, s'.calls.lookup i = some call → GenuineCall codec s.bucket call)
    (hheld : ∀ name, s.held name → s'.held name ∨ name = c.name ∧ s.latest c) :
    Inv codec s' where
  valid := by
    rw [hmemory]
    exact validate_afterUpdate h.valid _ _
  highWater := by
    rw [hwater, hbucket]
    exact h.highWater
  feed d hd := by
    rw [hbucket]
    exact h.feed d (hfeed ▸ hd)
  hand d hd := by
    rw [hbucket]
    exact h.hand d (hhand d hd)
  calls := by
    rw [hbucket]
    exact hcalls
  current name := by
    have hstored : stored codec s' name = stored codec s name := by rw [stored, stored, hbucket]
    have hlatest' : ∀ d, s'.latest d = s.latest d := fun d => by
      rw [latest, latest, hbucket]
    rw [hstored, hmemory]
    by_cases hdone : name = c.name ∧ s.latest c = true
    · obtain ⟨rfl, hlatest⟩ := hdone
      -- the last change of a key, once applied, is what the bucket has
      have hvalue := hc.value (of_decide_eq_true hlatest)
      left
      rw [lookup_apply h.valid hc, if_pos rfl, ← hvalue, stored, Change.key,
        componentKey_of_plain hc.plain, bind_map]
      rfl
    -- whoever else was to apply it still is
    have hstill : s.coming name → s'.coming name := by
      intro hcoming
      rw [coming_iff] at hcoming ⊢
      rcases hcoming with hcoming | ⟨d, hd, hdname, hdlatest, hlt⟩
      · exact .inl ((hheld name hcoming).resolve_right hdone)
      · exact .inr ⟨d, hfeed ▸ hd, hdname, by rw [hlatest']; exact hdlatest, hwater ▸ hlt⟩
    by_cases hname : name = c.name
    · subst hname
      exact .inr (hstill (hcare.resolve_left fun hlatest => hdone ⟨rfl, hlatest⟩))
    · rw [lookup_apply h.valid hc, if_neg hname]
      exact (h.current name).imp id hstill

/-- A held change is not lost when a call goes on that does not hold it. -/
theorem held_of_call (hcall : s.calls.lookup i = some call) (s' : State Raw Service Component)
    (hbucket : s'.bucket = s.bucket) (hhand : s'.hand = s.hand)
    (hcalls : ∀ j, j ≠ i → s'.calls.lookup j = s.calls.lookup j) (h : s.held name) :
    s'.held name ∨ ∃ d, call.pending = some d ∧ d.name = name ∧ s.latest d := by
  have hlatest' : ∀ d, s'.latest d = s.latest d := fun d => by
    rw [latest, latest, hbucket]
  rw [held_iff] at h ⊢
  rcases h with ⟨j, other, d, hother, hd, hdname, hdlatest⟩ | ⟨d, hd, hdname, hdlatest⟩
  · by_cases hji : j = i
    · subst hji
      rw [hcall] at hother
      cases hother
      exact .inr ⟨d, hd, hdname, hdlatest⟩
    · refine .inl (.inl ⟨j, other, d, ?_, hd, hdname, by rw [hlatest']; exact hdlatest⟩)
      rw [hcalls j hji]
      exact hother
  · exact .inl (.inr ⟨d, hhand.trans hd, hdname, by rw [hlatest']; exact hdlatest⟩)

/-- A call applies its change, and goes on or ends. -/
theorem Inv.applyCall (h : Inv codec s) (hcall : s.calls.lookup i = some call)
    (hpending : call.pending = some c) (hcare : s.latest c ∨ s.coming c.name)
    {calls : AList fun _ : ℕ => Call Raw}
    (hcalls : ∀ j other, calls.lookup j = some other → GenuineCall codec s.bucket other)
    (hother : ∀ j, j ≠ i → calls.lookup j = s.calls.lookup j) :
    Inv codec { s.apply codec c with calls := calls } := by
  refine h.apply ((h.calls i call hcall).pending hpending) hcare rfl rfl rfl rfl (fun _ hd => hd)
    hcalls fun name hheld => ?_
  refine (held_of_call hcall { s.apply codec c with calls := calls } rfl rfl hother hheld).imp id ?_
  rintro ⟨d, hd, rfl, hlatest⟩
  rw [hpending] at hd
  cases hd
  exact ⟨rfl, hlatest⟩

/-- The watcher applies what it has in hand. -/
theorem Inv.update (h : Inv codec s) (hhand : s.hand = some c)
    (hcare : s.latest c ∨ s.coming c.name) :
    Inv codec { s.apply codec c with hand := none } := by
  refine h.apply (h.hand c hhand) hcare rfl rfl rfl rfl nofun h.calls fun name hheld => ?_
  rw [held_iff] at hheld ⊢
  rcases hheld with hheld | ⟨d, hd, rfl, hlatest⟩
  · exact .inl (.inl hheld)
  · rw [hhand] at hd
    cases hd
    exact .inr ⟨rfl, hlatest⟩

/-- **The watermark is raised**, over nothing that is still needed. -/
theorem Inv.bump [DecidableEq Component] (h : Inv codec s)
    (hcall : s.calls.lookup i = some (.applied revision)) (hcare : careful codec s (.bump i)) :
    Inv codec ({ s with engineHighWaterRev := max s.engineHighWaterRev revision }.endCall i) where
  __ := h
  highWater := max_le h.highWater (h.calls i _ hcall)
  calls := forall_lookup_erase h.calls
  current name := by
    have hheld : s.held name →
        ({ s with engineHighWaterRev := max s.engineHighWaterRev revision }.endCall i).held name =
          true := by
      intro hheld
      refine (held_of_call hcall (endCall _ i) rfl rfl (fun j hj => AList.lookup_erase_ne hj)
        hheld).resolve_right ?_
      rintro ⟨d, hd, -⟩
      cases hd
    rcases h.current name with hcurrent | hcoming
    · exact .inl hcurrent
    rw [coming_iff] at hcoming
    rcases hcoming with hcoming | ⟨c, hc, rfl, hlatest, hlt⟩
    · exact .inr (coming_iff.2 (.inl (hheld hcoming)))
    by_cases hle : c.revision ≤ revision
    · simp only [careful, hcall, all_some, List.all_eq_true] at hcare
      have hsafe := hcare c hc
      simp only [hlatest, decide_eq_true hle, decide_eq_true hlt, Bool.and_self, Bool.not_true,
        Bool.false_or, Bool.or_eq_true, decide_eq_true_eq] at hsafe
      exact hsafe.imp id fun hcoming => coming_iff.2 (.inl (hheld hcoming))
    · exact .inr (coming_iff.2 (.inr ⟨c, hc, rfl, hlatest, max_lt hlt (by omega)⟩))

/-- **The watcher is handed a change**: it leaves alone only what is at or below the
watermark. -/
theorem Inv.deliver (h : Inv codec s) (hstep : s.deliver = some s') : Inv codec s' := by
  rw [State.deliver] at hstep
  split at hstep
  · next c feed hhand hfeed =>
    have hrest : ∀ d ∈ feed, d ∈ s.feed := fun d hd => hfeed ▸ mem_cons_of_mem c hd
    have hheld : ∀ {hand : Option (Change Raw)} {name : String}, s.held name →
        held { s with feed := feed, hand := hand } name := by
      intro hand name hheld
      rw [held_iff, hhand] at hheld
      refine held_iff.2 (.inl (hheld.resolve_right ?_))
      rintro ⟨d, hd, -⟩
      cases hd
    split at hstep
    · next hskip =>
      cases hstep
      refine { h with
        feed := fun d hd => h.feed d (hrest d hd)
        current := fun name => (h.current name).imp id fun hcoming => ?_ }
      rw [coming_iff] at hcoming ⊢
      rcases hcoming with hcoming | ⟨d, hd, hdname, hlatest, hlt⟩
      · refine .inl ?_
        have := @hheld s.hand name hcoming
        exact this
      · rw [hfeed] at hd
        rcases mem_cons.1 hd with rfl | hd
        · exact absurd hskip.2 (Nat.not_le_of_lt hlt)
        · exact .inr ⟨d, hd, hdname, hlatest, hlt⟩
    · cases hstep
      refine { h with
        feed := fun d hd => h.feed d (hrest d hd)
        hand := ?_
        current := fun name => (h.current name).imp id fun hcoming => ?_ }
      · rintro d ⟨⟩
        exact h.feed c (by rw [hfeed]; exact mem_cons_self)
      rw [coming_iff] at hcoming ⊢
      rcases hcoming with hcoming | ⟨d, hd, hdname, hlatest, hlt⟩
      · exact .inl (hheld hcoming)
      rw [hfeed] at hd
      rcases mem_cons.1 hd with rfl | hd
      · exact .inl (held_iff.2 (.inr ⟨d, rfl, hdname, hlatest⟩))
      · exact .inr ⟨d, hd, hdname, hlatest, hlt⟩
  · cases hstep

/-- **Every step keeps the invariant**, where the applied change is the last of its key or
that is yet to be applied, and the watermark is raised over nothing that is needed. -/
theorem Inv.step [DecidableEq Component] (h : Inv codec s) {event : Event Raw}
    (hcare : careful codec s event) (hstep : ConfigManager.step codec s event = some s') :
    Inv codec s' := by
  cases event with
      (rw [ConfigManager.step] at hstep; (try split at hstep <;> try contradiction); try cases hstep)
  | foreign name value =>
    rename_i hguard
    refine h.write hguard.1 fun raw hraw => ?_
    simpa [hraw] using hguard.2
  | put i name raw =>
    rename_i hguard
    have hvalue : ∀ r, some raw = some r → (acceptComponent codec r).isSome := by
      rintro r ⟨⟩
      exact hguard.2.1
    exact (h.write hguard.1 hvalue).setCall hguard.2.2 (genuine_next hguard.1 hvalue)
  | delete i name =>
    rename_i hguard
    have hnone : ∀ raw, (none : Option Raw) = some raw → (acceptComponent codec raw).isSome :=
      nofun
    exact (h.write hguard.1 hnone).setCall hguard.2 (genuine_next hguard.1 hnone)
  | deleteMissing i name =>
    rename_i hguard
    have hnone : ∀ raw, (none : Option Raw) = some raw → (acceptComponent codec raw).isSome :=
      nofun
    refine h.setCall hguard.2.1 ⟨hguard.1, hnone, s.bucket.revision_le_lastSeq _, fun _ => ?_⟩
    rw [Change.key, hguard.2.2]
    rfl
  | apply i =>
    obtain ⟨call, hcall, hstep⟩ := bind_eq_some_iff.1 hstep
    simp only [careful, hcall, all_some] at hcare
    cases call with
    | put c =>
      have hc : Genuine codec s.bucket c := h.calls i _ hcall
      have hcare' : s.latest c = true ∨ s.coming c.name = true := by
        simpa [Call.pending] using hcare
      rw [State.applyCall] at hstep
      split at hstep
      · next hrefused =>
        obtain ⟨_, hupdated⟩ := updateConfig_componentKey_ok hc.plain h.valid hc.accepted
        rw [Change.key, hupdated] at hrefused
        cases hrefused
      · cases hstep
        exact h.applyCall hcall rfl hcare' (forall_lookup_insert hc.revision_le h.calls)
          fun j hj => AList.lookup_insert_ne hj
    | delete c =>
      cases hstep
      refine h.applyCall hcall rfl (by simpa [Call.pending] using hcare) (forall_lookup_erase h.calls)
        fun j hj => AList.lookup_erase_ne hj
    | applied revision => cases hstep
  | bump i =>
    obtain ⟨call, hcall, hstep⟩ := bind_eq_some_iff.1 hstep
    cases call with
    | put c => cases hstep
    | delete c => cases hstep
    | applied revision =>
      cases hstep
      exact h.bump hcall hcare
  | deliver => exact h.deliver hstep
  | update =>
    obtain ⟨c, hc, hstep⟩ := map_eq_some_iff.1 hstep
    subst hstep
    exact h.update hc (by simpa [careful, hc] using hcare)

/-! ## Convergence -/

/-- **The components in memory converge to the bucket's**, in every run whose steps are
careful. -/
theorem components_converge (codec : Codec Raw Service Component) [DecidableEq Component]
    {s₀ s : State Raw Service Component} {events : List (Event Raw)} (hinit : Initial codec s₀)
    (hrun : run (step codec) s₀ events = some s)
    (hcare : Along (step codec) (fun s event => careful codec s event = true) s₀ events)
    (hq : Quiescent s) : Converged codec s :=
  (run_invariant_along (fun _ _ _ h hcare hstep => h.step hcare hstep) (inv_initial hinit) hcare
    hrun).converged hq

/-! ## Two runs -/

/-- An empty bucket, and an empty configuration. -/
def fresh : State String String String where
  bucket := Bucket.empty
  memory := ⟨"1.0.0", ∅, ∅, none, none⟩
  feed := []
  hand := none
  engineHighWaterRev := 0
  calls := ∅

theorem fresh_initial : Initial textCodec fresh where
  converged _ := rfl
  valid := rfl
  highWater := Nat.le_refl _
  quiescent := ⟨rfl, rfl, rfl⟩

/-- Nothing is left to do, as far as it can be computed. -/
def State.quiet (s : State Raw Service Component) : Bool :=
  s.feed.isEmpty && s.hand.isNone && s.calls.entries.isEmpty

theorem quiescent_of_quiet (h : s.quiet) :
    Quiescent s := by
  simp only [quiet, Bool.and_eq_true] at h
  exact ⟨List.isEmpty_iff.1 h.1.1, isNone_iff_eq_none.1 h.1.2, AList.ext (List.isEmpty_iff.1 h.2)⟩

/-- Another process writes a component, which is delivered; then an own put of another. -/
def inTurn : List (Event String) :=
  [.foreign "udp" (some "theirs"), .deliver, .update, .put 0 "tcp" "ours", .apply 0, .bump 0,
    .deliver]

theorem components_converge_in_turn :
    ∃ s, run (step textCodec) fresh inTurn = some s ∧ Converged textCodec s := by
  refine exists_end (P := fun s => s.quiet) (by decide +kernel) fun s hrun hs => ?_
  exact components_converge textCodec fresh_initial hrun (by decide +kernel) (quiescent_of_quiet hs)

/-- The same writes; but the put is done before the other's change is delivered. -/
def overtaken : List (Event String) :=
  [.foreign "udp" (some "theirs"), .put 0 "tcp" "ours", .apply 0, .bump 0, .deliver, .deliver]

/-- **The other's component never reaches memory**: the watermark is above it. -/
theorem foreign_change_skipped : ∃ s, run (step textCodec) fresh overtaken = some s ∧ Quiescent s ∧
      s.memory.components.lookup "udp" = none ∧ stored textCodec s "udp" = some "theirs" := by
  refine exists_end (P := fun s => s.quiet ∧ s.memory.components.lookup "udp" = none ∧
    stored textCodec s "udp" = some "theirs") (by decide +kernel) fun s _ hs => ?_
  exact ⟨quiescent_of_quiet hs.1, hs.2⟩

end SemStreams.ConfigManager
