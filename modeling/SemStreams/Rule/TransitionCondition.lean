import SemStreams.Rule.StatefulEvaluator
/-!
# Rules — transition conditions

A transition condition holds where the field now has its target value and the value remembered from
the evaluation before is an allowed one. What is compared is read by `GetFieldValue`, which takes
the first triple of the field; what is remembered is captured after the evaluation, from the last
one. With several triples the two differ, and a state that does not change goes on reporting a
transition. `transitions_sound` is what holds where first and last agree and no value is both the
target and allowed before it; `unchanged_state_transitions` is the other case.
-/

namespace SemStreams.Rule

open SemStreams.Graph

/-- `toFloat64`, and `fmt.Sprintf("%v", ·)`: the text of a value says what the value says. -/
structure Values where
  toFloat64 : Object → Option ℚ
  format : Object → String
  format_text : ∀ s, format (.text s) = s
  toFloat64_text : ∀ a, toFloat64 (.text (format a)) = toFloat64 a

/-- `compareValues` finds no difference. -/
def Values.same (v : Values) (a b : Object) : Bool :=
  match v.toFloat64 a, v.toFloat64 b with
  | some x, some y => x = y
  | _, _ => v.format a = v.format b

/-- A condition with the transition operator, its value substituted and its `From` as
`normalizeToSlice` leaves it. -/
structure TransitionCondition where
  field : String
  value : Object
  required : Bool := false
  allowed : Option (List Object) := none

/-- `GetFieldValue`, where there is an entity. -/
def getFieldValue (entity : Option EntityState) (field : String) : Option Object :=
  entity.bind fun e => (e.triples.find? fun t => t.predicate == field).map Triple.object

/-- `evaluateTransition`; `none` is an evaluation error. -/
def evaluateTransition (v : Values) (entity : Option EntityState) (prev : FieldValues)
    (c : TransitionCondition) : Option Bool :=
  match entity with
  | none => if c.required then none else some false
  | some e =>
    match getFieldValue (some e) c.field with
    | none => some false
    | some current =>
      if !v.same current c.value then some false
      else
        match prev c.field with
        | none => some false
        | some text =>
          match c.allowed with
          | some allowed => some (allowed.any fun a => v.same (.text text) a)
          | none => some !v.same (.text text) current

/-- The `$prev` fields of the next evaluation. -/
def remembered (persisted : Option MatchState) : FieldValues := (persisted.getD .zero).fieldValues

/-- The evaluation gets past the tracker and the stale-replay guard. -/
def evaluates (rule : Definition) (persisted : Option MatchState) (ev : Evaluation)
    (env : Surroundings) : Bool :=
  match trackerGet persisted env.getOk rule.id ev.entityKey with
  | .ok prev => !(ev.revision > 0 && prev.sourceRevision ≥ ev.revision)
  | .error .stateNotFound => true
  | .error _ => false

/-- One evaluation; beside the bucket, the entity it read is kept. -/
def observeStep (v : Values) (rule : Definition) (entityKey : String)
    (s : Option MatchState × Option EntityState) (call : Evaluation × Surroundings) :
    Option (Option MatchState × Option EntityState) :=
  let env := { call.2 with format := v.format }
  (evaluateStep rule entityKey s.1 (call.1, env)).map fun persisted =>
    (persisted, if evaluates rule s.1 call.1 env then call.1.entity else s.2)

/-- The values are the texts of what is read. -/
def Agrees (v : Values) (values : FieldValues) (entity : Option EntityState) : Prop :=
  ∀ field text, values field = some text → (getFieldValue entity field).map v.format = some text

/-- **What an evaluation must meet**: its state is written, and of a field that is remembered the
last triple has the value of the first. -/
def Settled (v : Values) (rule : Definition) (s : Option MatchState × Option EntityState)
    (call : Evaluation × Surroundings) : Prop :=
  evaluates rule s.1 call.1 { call.2 with format := v.format } = true →
    call.2.setOk = true ∧
      Agrees v (captureTransitionFields rule call.1.entity v.format) call.1.entity

/-- No allowed value is the target. -/
def TransitionCondition.Proper (v : Values) (c : TransitionCondition) : Prop :=
  ∀ allowed, c.allowed = some allowed → ∀ a ∈ allowed, v.same a c.value = false

variable {v : Values} {a b : Object}

/-- Values are compared as numbers, or as texts that are no numbers. -/
def Values.key (v : Values) (a : Object) : ℚ ⊕ String :=
  match v.toFloat64 a with
  | some x => .inl x
  | none => .inr (v.format a)

theorem Values.same_iff : v.same a b ↔ v.key a = v.key b := by
  -- a text that two values share is a number for both or for none
  have hformat : v.format a = v.format b → v.toFloat64 a = v.toFloat64 b := by
    intro h
    rw [← v.toFloat64_text a, h, v.toFloat64_text]
  unfold Values.same Values.key
  cases ha : v.toFloat64 a <;> cases hb : v.toFloat64 b <;> simp_all

theorem Values.key_text : v.key (.text (v.format a)) = v.key a := by
  unfold Values.key
  rw [v.toFloat64_text, v.format_text]

/-- What an evaluation that gets past its guards leaves. -/
theorem remembered_evaluate (hset : evaluates rule persisted ev env → env.setOk) :
    remembered (evaluate rule persisted ev env).persisted =
      if evaluates rule persisted ev env then captureTransitionFields rule ev.entity env.format
      else remembered persisted := by
  unfold evaluate evaluates at *
  by_cases hid : rule.id = ""
  · simp [trackerGet, hid]
  by_cases hkey : ev.entityKey = ""
  · simp [trackerGet, hid, hkey]
  cases hget : env.getOk with
  | false => simp [trackerGet, hid, hkey]
  | true =>
    cases persisted with
    | none =>
      have hok := hset (by simp [trackerGet, hid, hkey, hget])
      simp [trackerGet, hid, hkey, evaluateFrom, trackerSet, hok, remembered]
    | some st =>
      by_cases hstale : ev.revision > 0 ∧ st.sourceRevision ≥ ev.revision
      · simp [trackerGet, hid, hkey, evaluateFrom, hstale]
      · have hgo : ev.revision = 0 ∨ st.sourceRevision < ev.revision := by omega
        have hok := hset (by simpa [trackerGet, hid, hkey, hget] using hgo)
        simp [trackerGet, hid, hkey, evaluateFrom, trackerSet, hok, remembered, hstale, hgo]

theorem Agrees.step (h : Agrees v (remembered s.1) s.2)
    (hcond : Settled v rule s call) (hstep : observeStep v rule entityKey s call = some s') :
    Agrees v (remembered s'.1) s'.2 := by
  obtain ⟨_, hev, rfl⟩ := Option.map_eq_some_iff.1 hstep
  unfold evaluateStep at hev
  split at hev <;> cases hev
  rw [remembered_evaluate fun hgo => (hcond hgo).1]
  split
  · exact (hcond ‹_›).2
  · exact h

/-- **Transition conditions are sound** in every run of evaluations whose states are written and
whose remembered fields have one value, for a condition that does not allow its target: where one
holds, the value read for its field differs from the value read at the evaluation before, that value
is allowed, and the present one is the target. -/
theorem transitions_sound (v : Values) (rule : Definition) (entityKey : String)
    (calls : List (Evaluation × Surroundings)) (s : Option MatchState × Option EntityState)
    (hrun : run (observeStep v rule entityKey) (none, none) calls = some s)
    (hcond : Along (observeStep v rule entityKey) (Settled v rule) (none, none) calls)
    (e : EntityState) (c : TransitionCondition) (hproper : c.Proper v)
    (h : evaluateTransition v (some e) (remembered s.1) c = some true) :
    ∃ a b, getFieldValue s.2 c.field = some a ∧ getFieldValue (some e) c.field = some b ∧
      v.same a b = false ∧ v.same b c.value = true ∧
      ∀ allowed, c.allowed = some allowed → ∃ x ∈ allowed, v.same a x = true := by
  have hagrees : Agrees v (remembered s.1) s.2 :=
    run_invariant_along (I := fun s => Agrees v (remembered s.1) s.2)
      (fun _ _ _ hs hc hstep => hs.step hc hstep) (fun _ _ h => by cases h) hcond hrun
  simp only [evaluateTransition] at h
  split at h
  · cases h
  rename_i b hb
  split at h
  · cases h
  rename_i htarget
  have htarget : v.same b c.value := by simpa using htarget
  split at h
  · cases h
  rename_i text htext
  obtain ⟨a, ha, rfl⟩ := Option.map_eq_some_iff.1 (hagrees c.field text htext)
  have htext : ∀ x, v.same (.text (v.format a)) x = v.same a x := by
    intro x
    rw [Bool.eq_iff_iff, Values.same_iff, Values.same_iff, Values.key_text]
  simp only [htext] at h
  refine ⟨a, b, ha, hb, ?_, htarget, ?_⟩
  · split at h
    · -- an allowed value is not the target, which is the present one
      rename_i allowed hallowed
      obtain ⟨x, hx, hsame⟩ := List.any_eq_true.1 (Option.some.inj h)
      have hnot := hproper allowed hallowed x hx
      rw [← Bool.not_eq_true, Values.same_iff] at hnot ⊢
      rw [Values.same_iff] at hsame htarget
      exact fun hab => hnot (hsame.symm.trans (hab.trans htarget))
    · simpa using h
  · intro allowed hallowed
    simp only [hallowed, Option.some.injEq] at h
    exact List.any_eq_true.1 h

/-- Texts, none of them a number. -/
def plainValues : Values where
  toFloat64 _ := none
  format | .text s | .json s => s
  format_text _ := rfl
  toFloat64_text _ := rfl

/-- A rule that watches the status of a work item, and its condition. -/
def statusRule : Definition :=
  { parkRule with id := "activated", conditions := [⟨"status", opTransition, "active"⟩] }

def activation : TransitionCondition := ⟨"status", .text "active", false, some [.text "planned"]⟩

def statusEntity (values : List String) : EntityState where
  id := "acme.dep1.work.queue.task.1"
  triples := values.map fun value =>
    { subject := "acme.dep1.work.queue.task.1", predicate := "status", object := .text value }
  storageRef := none
  messageType := ⟨"", "", ""⟩
  version := 1
  updatedAt := 0

/-- The rule is evaluated on states with these values, at revision 1, 2 and so on. -/
def statusRun (states : List (List String)) : Option (Option MatchState × Option EntityState) :=
  run (observeStep plainValues statusRule "acme.dep1.work.queue.task.1") (none, none)
    (states.mapIdx fun i values =>
      ({ workEvaluation (i + 1) false with entity := some (statusEntity values) }, {}))

theorem transitions_sound_activated :
    ∃ s a b, statusRun [["planned"]] = some s ∧ getFieldValue s.2 "status" = some a ∧
      getFieldValue (some (statusEntity ["active"])) "status" = some b ∧
      plainValues.same a b = false := by
  have hcapture : Agrees plainValues (captureTransitionFields statusRule
      (some (statusEntity ["planned"])) plainValues.format) (some (statusEntity ["planned"])) := by
    intro field _ htext
    by_cases hfield : field = "status"
    · subst hfield
      exact htext
    · simp [captureTransitionFields, statusEntity, Ne.symm hfield] at htext
  have hproper : activation.Proper plainValues := by
    rintro _ ⟨⟩ x hx
    obtain rfl := List.mem_singleton.1 hx
    rfl
  obtain ⟨a, b, ha, hb, hab, -⟩ := transitions_sound plainValues statusRule _ _ _
    (rfl : statusRun [["planned"]] = _) ((along_cons rfl).2 ⟨fun _ => ⟨rfl, hcapture⟩, trivial⟩)
    (statusEntity ["active"]) activation hproper rfl
  exact ⟨_, a, b, rfl, ha, hb, hab⟩

/-- **A state that does not change reports a transition each time**: its status is `active` in the
first triple and `planned` in the last. -/
theorem unchanged_state_transitions : ∃ s s', statusRun [["active", "planned"]] = some s ∧
      statusRun [["active", "planned"], ["active", "planned"]] = some s' ∧ s.2 = s'.2 ∧
      ∀ p ∈ [s.1, s'.1], evaluateTransition plainValues
        (some (statusEntity ["active", "planned"])) (remembered p) activation = some true := by
  refine ⟨_, _, rfl, rfl, rfl, fun p hp => ?_⟩
  simp only [List.mem_cons, List.not_mem_nil, or_false] at hp
  rcases hp with rfl | rfl <;> rfl

end SemStreams.Rule
