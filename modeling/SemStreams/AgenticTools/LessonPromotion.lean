import SemStreams.Lib.Run
import SemStreams.Graph.Contract
/-!
# agentic-tools — lesson promotion

`Promote` reads the lesson, reads every entity it cites as evidence, and replaces the lifecycle
group by an active one. `Retire` and `Supersede` replace the group at once. What becomes active
was resolved during the call. But no write looks at the status it replaces, so that a lesson
retired before or during the call becomes active again.

Of the lifecycle group only the status is kept. The evidence is outside the group and no step
changes it.
-/

namespace SemStreams.LessonPromotion

open Function List SemStreams.Graph

inductive Status where
  | proposed
  | active
  | retired
  | superseded
deriving DecidableEq

inductive PromoteError where
  | malformed
  | notFound
  | read
  | noEvidence
  | resolve (ev : String)
  | missing (evs : List String)
  | write

/-- A change of a status to active: the status it was, the evidence the lesson cites and what
the call saw of it. -/
structure Activation where
  was : Status
  cited : List String
  seen : List String

/-- The stored statuses, with what happened to them: `ended` are the lessons that were retired
or superseded. -/
structure Store where
  status : String → Status
  activations : List Activation := []
  ended : List String := []

-- The lessons of the graph, with the evidence each cites.
variable (lessons : String → Option (List String))

/-- A `Promote` that read its lesson: the evidence still to read, what was found and what was
not. -/
structure Promotion where
  id : String
  left : List String
  seen : List String := []
  missing : List String := []
  covers : ∀ ev ∈ (lessons id).getD [], ev ∈ left ∨ ev ∈ seen ∨ ev ∈ missing

inductive Call where
  | resolving (p : Promotion lessons)
  | returned (error : Option PromoteError)

structure State where
  store : Store
  present : String → Bool
  calls : ℕ → Option (Call lessons) := fun _ => none

def start (status : String → Status) (present : String → Bool) : State lessons :=
  { store := { status }, present }

/-- `replace`: the lifecycle group in one mutation. -/
def Store.replace (store : Store) (id : String) (seen : List String) (desired : Status) : Store where
  status := update store.status id desired
  activations :=
    if desired = .active ∧ store.status id ≠ .active then
      ⟨store.status id, (lessons id).getD [], seen⟩ :: store.activations
    else store.activations
  ended := if desired = .active then store.ended else id :: store.ended

variable {lessons}

def State.put (s : State lessons) (c : ℕ) (call : Call lessons) : State lessons :=
  { s with calls := update s.calls c (some call) }

/-- `Promote` up to the evidence. `ok` says that the read did not fail. -/
def promote (id : String) (ok : Bool) : Call lessons :=
  if !isValidEntityID id then .returned (some .malformed)
  else if !ok then .returned (some .read)
  else
    match h : lessons id with
    | none => .returned (some .notFound)
    | some [] => .returned (some .noEvidence)
    | some (ev :: evs) =>
      .resolving { id, left := ev :: evs, covers := fun e he => .inl (by simpa [h] using he) }

/-- One turn of the loop over the evidence. -/
def resolve (s : State lessons) (p : Promotion lessons) (ok : Bool) : Option (Call lessons) :=
  match h : p.left with
  | [] => none
  | ev :: left =>
    some (if !ok then .returned (some (.resolve ev)) else if s.present ev then
        .resolving { p with left, seen := ev :: p.seen, covers := by grind [p.covers] }
      else
        .resolving { p with left, missing := p.missing ++ [ev], covers := by grind [p.covers] })

/-- What `Promote` does after the loop. -/
def finish (s : State lessons) (c : ℕ) (p : Promotion lessons) (ok : Bool) :
    Option (State lessons) :=
  if p.left ≠ [] then none
  else if p.missing ≠ [] then some (s.put c (.returned (some (.missing p.missing))))
  else if !ok then some (s.put c (.returned (some .write)))
  else
    let store := s.store.replace lessons p.id p.seen .active
    some ({ s with store }.put c (.returned none))

/-- A transition without conditions. An absent lesson refuses it. -/
def transition (s : State lessons) (id : String) (desired : Status) (ok : Bool) : State lessons :=
  if isValidEntityID id && (lessons id).isSome && ok then
    { s with store := s.store.replace lessons id [] desired }
  else s

def retire (s : State lessons) (id : String) (ok : Bool) : State lessons :=
  transition s id .retired ok

def supersede (s : State lessons) (id byID : String) (ok : Bool) : State lessons :=
  transition s id .superseded (isValidEntityID byID && ok)

inductive Event where
  | promote (c : ℕ) (id : String) (ok : Bool)
  | resolve (c : ℕ) (ok : Bool)
  | write (c : ℕ) (ok : Bool)
  | retire (id : String) (ok : Bool)
  | supersede (id byID : String) (ok : Bool)
  | evidence (id : String) (present : Bool)

def step (s : State lessons) : Event → Option (State lessons)
  | .promote c id ok => if (s.calls c).isNone then some (s.put c (promote id ok)) else none
  | .resolve c ok =>
    match s.calls c with
    | some (.resolving p) => (resolve s p ok).map (s.put c)
    | _ => none
  | .write c ok =>
    match s.calls c with
    | some (.resolving p) => finish s c p ok
    | _ => none
  | .retire id ok => some (retire s id ok)
  | .supersede id byID ok => some (supersede s id byID ok)
  | .evidence id present => some { s with present := update s.present id present }

/-- Statuses became active from proposed and on evidence that was seen, and what was retired or
superseded is not active. -/
structure Honest (store : Store) : Prop where
  proposed : ∀ a ∈ store.activations, a.was = .proposed
  resolved : ∀ a ∈ store.activations, ∀ ev ∈ a.cited, ev ∈ a.seen
  ended : ∀ id ∈ store.ended, store.status id ≠ .active

def activates (s : State lessons) : Event → Option String
  | .write c true =>
    match s.calls c with
    | some (.resolving p) => if p.left = [] ∧ p.missing = [] then some p.id else none
    | _ => none
  | _ => none

/-- A lesson is made active while it is proposed, or is active already. -/
def FromProposed (s : State lessons) (e : Event) : Prop :=
  ∀ id ∈ activates s e, s.store.status id = .proposed ∨ s.store.status id = .active

instance (s : State lessons) (e : Event) : Decidable (FromProposed s e) :=
  inferInstanceAs (Decidable (∀ id ∈ activates s e, _))

/-- What was retired or superseded is not proposed. -/
def Ended (store : Store) : Prop :=
  ∀ id ∈ store.ended, store.status id ≠ .proposed

variable {s : State lessons} {store : Store} {id : String} {desired : Status} {seen : List String}

theorem forall_ended_replace (h : ∀ k ∈ store.ended, store.status k ≠ was) (hd : desired ≠ was) :
    ∀ k ∈ (store.replace lessons id seen desired).ended,
      (store.replace lessons id seen desired).status k ≠ was := by
  intro k hk
  by_cases hkid : k = id
  · subst hkid
    exact (update_self ..).trans_ne hd
  · refine (update_of_ne hkid ..).trans_ne (h k ?_)
    unfold Store.replace at hk
    grind

/-- **One write.** It is honest exactly if it makes active what is proposed, or active already. -/
theorem honest_replace (hs : Ended store) (h : Honest store)
    (hseen : desired = .active → ∀ ev ∈ (lessons id).getD [], ev ∈ seen) :
    Honest (store.replace lessons id seen desired) ↔
      (desired = .active → store.status id = .proposed ∨ store.status id = .active) := by
  by_cases hd : desired = .active
  · subst hd
    simp only [forall_const] at hseen ⊢
    constructor
    · intro h'
      by_cases hactive : store.status id = .active
      · exact .inr hactive
      · refine .inl (h'.proposed ⟨_, (lessons id).getD [], seen⟩ ?_)
        simp [Store.replace, hactive]
    · intro hor
      have hended : ∀ k ∈ store.ended, update store.status id .active k ≠ .active := by
        intro k hk
        have hkid : k ≠ id := by
          rintro rfl
          exact hor.elim (hs k hk) (h.ended k hk)
        rw [update_of_ne hkid]
        exact h.ended k hk
      rcases hor with hwas | hwas
      · simp only [Store.replace, hwas, ne_eq, reduceCtorEq, not_false_eq_true, and_self, if_true]
        exact ⟨forall_mem_cons.2 ⟨rfl, h.proposed⟩, forall_mem_cons.2 ⟨hseen, h.resolved⟩, hended⟩
      · simp only [Store.replace, hwas, ne_eq, not_true_eq_false, and_false, if_false, if_true]
        exact { h with ended := hended }
  · refine iff_of_true ⟨?_, ?_, forall_ended_replace h.ended hd⟩ fun hd' => absurd hd' hd
    · simpa [Store.replace, hd] using h.proposed
    · simpa [Store.replace, hd] using h.resolved

/-- **What a step does to the statuses**: nothing, or one write, and one that makes a lesson
active has seen its evidence. -/
theorem step_cases (h : step s e = some s') : (s'.store = s.store ∧ activates s e = none) ∨
      ∃ id seen desired, s'.store = s.store.replace lessons id seen desired ∧
        desired ≠ .proposed ∧ (desired = .active → ∀ ev ∈ (lessons id).getD [], ev ∈ seen) ∧
        activates s e = if desired = .active then some id else none := by
  cases e with
  | promote c id ok =>
    obtain ⟨-, ⟨⟩⟩ := Option.ite_none_right_eq_some.1 h
    exact .inl ⟨rfl, rfl⟩
  | resolve c ok =>
    simp only [step] at h
    split at h
    · obtain ⟨call, -, rfl⟩ := Option.map_eq_some_iff.1 h
      exact .inl ⟨rfl, rfl⟩
    · cases h
  | write c ok =>
    simp only [step] at h
    split at h
    · rename_i p hp
      by_cases hdone : ok ∧ p.left = [] ∧ p.missing = []
      · obtain ⟨rfl, hleft, hmissing⟩ := hdone
        have hstore : s'.store = s.store.replace lessons p.id p.seen .active := by
          unfold finish at h
          grind [State.put]
        have hcovers := p.covers
        simp only [hleft, hmissing, not_mem_nil, false_or, or_false] at hcovers
        refine .inr ⟨p.id, p.seen, .active, hstore, nofun, fun _ => hcovers, ?_⟩
        simp [activates, hp, hleft, hmissing]
      · refine .inl ⟨?_, ?_⟩
        · unfold finish at h
          grind [State.put]
        · cases ok <;> simp_all [activates]
    · cases h
  | retire id ok =>
    cases h
    unfold retire transition
    split
    · exact .inr ⟨id, [], .retired, rfl, nofun, nofun, rfl⟩
    · exact .inl ⟨rfl, rfl⟩
  | supersede id byID ok =>
    cases h
    unfold supersede transition
    split
    · exact .inr ⟨id, [], .superseded, rfl, nofun, nofun, rfl⟩
    · exact .inl ⟨rfl, rfl⟩
  | evidence id present =>
    cases h
    exact .inl ⟨rfl, rfl⟩

theorem ended_step (s : State lessons) (e : Event) (s' : State lessons) (hs : Ended s.store)
    (h : step s e = some s') : Ended s'.store := by
  rcases step_cases h with ⟨heq, -⟩ | ⟨id, seen, desired, heq, hd, -⟩ <;> rw [heq]
  · exact hs
  · exact forall_ended_replace hs hd

theorem honest_step (s : State lessons) (e : Event) (s' : State lessons) (hs : Ended s.store)
    (hh : Honest s.store) (h : step s e = some s') : Honest s'.store ↔ FromProposed s e := by
  unfold FromProposed
  rcases step_cases h with ⟨heq, hnone⟩ | ⟨id, seen, desired, heq, -, hseen, hactivates⟩ <;> rw [heq]
  · exact iff_of_true hh (by simp [hnone])
  · rw [honest_replace hs hh hseen, hactivates]
    split <;> simp_all

/-- **Promotion from proposed only, exactly.** From any statuses and for any calls of any
curators, every state of the run is honest exactly if each promotion writes while the lesson is
proposed, or active already. -/
theorem honest_iff {status : String → Status} {present : String → Bool} {es : List Event}
    (h : run step (start lessons status present) es = some s) :
    (∀ pre t, pre <+: es → run step (start lessons status present) pre = some t →
      Honest t.store) ↔ Along step FromProposed (start lessons status present) es :=
  always_iff_along (I := fun s => Ended s.store) ended_step honest_step nofun ⟨nofun, nofun, nofun⟩ h

/-- What no call has ended is proposed or active. -/
def Standing (store : Store) : Prop :=
  ∀ id ∉ store.ended, store.status id = .proposed ∨ store.status id = .active

theorem standing_step (hs : Standing s.store) (h : step s e = some s') : Standing s'.store := by
  rcases step_cases h with ⟨heq, -⟩ | ⟨id, seen, desired, heq, -⟩ <;> rw [heq]
  · exact hs
  · intro k hk
    dsimp only [Store.replace] at hk ⊢
    by_cases hkid : k = id
    · subst hkid
      exact .inr ((update_self ..).trans (by grind))
    · rw [update_of_ne hkid]
      exact hs k (by grind)

/-- **On calls**: where no lesson is retired or superseded at the start, it is enough that no
`Retire` or `Supersede` of a lesson commits before a `Promote` of it writes. -/
theorem honest_of_not_ended (hstatus : ∀ id, status id = .proposed ∨ status id = .active)
    (hbefore : Along step (fun s e => ∀ id ∈ activates s e, id ∉ s.store.ended)
      (start lessons status present) es)
    (h : run step (start lessons status present) es = some s) : Honest s.store := by
  have hinv : Ended s.store ∧ Honest s.store ∧ Standing s.store := by
    refine run_invariant_along (I := fun s => Ended s.store ∧ Honest s.store ∧ Standing s.store)
      ?_ ?_ hbefore h
    · rintro s e s' ⟨hs, hh, hstanding⟩ hbefore hstep
      exact ⟨ended_step s e s' hs hstep, (honest_step s e s' hs hh hstep).2 fun id hid =>
        hstanding id (hbefore id hid), standing_step hstanding hstep⟩
    · exact ⟨nofun, ⟨nofun, nofun, nofun⟩, fun id _ => hstatus id⟩
  exact hinv.2.1

def lessonID : String := "acme.ops.lesson.agent.record.r"

/-- One lesson, which cites one loop. -/
def oneLesson (id : String) : Option (List String) :=
  if id = lessonID then some ["acme.ops.agent.loop.run.a"] else none

def promoteOne : List Event := [.promote 0 lessonID true, .resolve 0 true, .write 0 true]

theorem honest_iff_promoted :
    ∃ s, run step (start oneLesson (fun _ => .proposed) fun _ => true) promoteOne = some s ∧
      Honest s.store := by
  refine exists_end (P := fun _ => True) (by decide +kernel) fun s hrun _ => ?_
  exact (honest_iff hrun).2 (by decide +kernel) _ s (prefix_refl _) hrun

/-- A lesson is retired, and promoted after that. -/
theorem retired_promoted : ∃ s, run step (start oneLesson (fun _ => .proposed) fun _ => true)
        (.retire lessonID true :: promoteOne) = some s ∧
      lessonID ∈ s.store.ended ∧ s.store.status lessonID = .active := by
  decide +kernel

end SemStreams.LessonPromotion
