import SemStreams.Lifecycle.Requests
/-!
# Lifecycle — the history of an entity is a run of its workflow

Every state an entity takes while it carries a phase is to have one phase triple
and a window of records that decodes, is ordered and linked and ends in the
phase; and its phases are to follow the transitions table until it is despawned.

One thing is not as it should be. `Create` writes the phase itself and once more
as the phase field of the participant; the second triple stays until the first
transition. Where no participant has that field set, the history is a run.
-/

namespace SemStreams.Lifecycle

open SemStreams.Graph GraphIngest KeyedLog List Function Option

/-! ## Histories -/

section Histories

variable (formats : Formats) (reg : Registration) (entityID : String)

/-- The state carries the workflow's phase. -/
def Carries (triples : List Triple) : Prop :=
  hasTriple triples entityID reg.workflow.phasePredicate = true

def phaseOf (triples : List Triple) : String :=
  extractTripleScalar formats triples entityID reg.workflow.phasePredicate

/-- **A valid state**: one phase triple, and at most sixty-four records that decode,
in the order of their times, each from where the one before ended, the last one
into the phase. -/
structure ValidState (triples : List Triple) : Prop where
  one : (phasesOf reg triples).length = 1
  records : ∃ records, decodeTransitionRecords formats.toTimeLayout entityID triples = .ok records ∧
    records.length ≤ transitionHistoryLimit ∧
    (records.Pairwise fun r r' => r.event.time < r'.event.time) ∧
    (records.IsChain fun r r' => r'.event.fromPhase = r.event.toPhase) ∧
    ∃ last, records.getLast? = some last ∧ last.event.toPhase = phaseOf formats reg entityID triples

/-- **A valid step**: a phase is kept or left along a declared edge, a terminal
one is kept, and none gets lost. -/
def Follows (older newer : List Triple) : Prop :=
  Carries reg entityID older → Carries reg entityID newer ∧
    (phaseOf formats reg entityID newer = phaseOf formats reg entityID older ∨
      reg.workflow.transitions.isValidTransition (phaseOf formats reg entityID older)
        (phaseOf formats reg entityID newer) = true) ∧
    (reg.workflow.transitions.isTerminal (phaseOf formats reg entityID older) = true →
      phaseOf formats reg entityID newer = phaseOf formats reg entityID older)

/-- The states since the last despawn, newest first, are valid and follow each other. -/
def ValidHistory : List (List Triple) → Prop
  | [] => True
  | newer :: rest =>
    (Carries reg entityID newer → ValidState formats reg entityID newer) ∧
      (∀ older, rest.head? = some older → Follows formats reg entityID older newer) ∧
      ValidHistory rest

variable {formats reg entityID} {phase : String} {records : List TransitionRecord}

theorem Tracked.phaseOf (h : Tracked formats reg entityID triples phase records) :
    phaseOf formats reg entityID triples = phase := h.scalar

theorem Tracked.validState (h : Tracked formats reg entityID triples phase records)
    (hone : (phasesOf reg triples).length = 1) : ValidState formats reg entityID triples where
  one := hone
  records := by
    refine ⟨records, h.decode, h.kept.bounded, h.kept.ordered, h.linked, ?_⟩
    rw [h.phaseOf]
    exact h.ends

theorem Tracked.follows (h : Tracked formats reg entityID older phase records)
    (h' : Tracked formats reg entityID newer newPhase records')
    (hedge : newPhase = phase ∨ reg.workflow.transitions.isValidTransition phase newPhase) :
    Follows formats reg entityID older newer := by
  intro _
  rw [h.phaseOf, h'.phaseOf]
  refine ⟨h'.hasTriple, hedge, fun hterminal => ?_⟩
  rcases hedge with rfl | hedge
  · rfl
  · rw [Transitions.not_terminal_of_isValidTransition hedge] at hterminal
    exact Bool.noConfusion hterminal

/-- The current state is tracked if it carries a phase. -/
def HeadTracked (formats : Formats) (reg : Registration) (entityID : String) (commits : Commits) :
    Prop :=
  ∀ cur, current commits () = some cur → Carries reg entityID cur →
    ∃ phase records, Tracked formats reg entityID cur phase records

/-- **After a commit the new state is tracked**, if the old one was. -/
theorem Commit.tracked (h : Commit formats reg entityID (current commits ()) newer)
    (hhead : HeadTracked formats reg entityID commits) :
    ∃ phase records, Tracked formats reg entityID newer phase records := by
  cases h with
  | birth hnew hone htracked => exact ⟨_, _, htracked⟩
  | transition newPhase hold hcarries hone htracked =>
    obtain ⟨phase, records, h⟩ := hhead _ hold hcarries
    exact ⟨newPhase, (htracked phase records h).2⟩
  | update hold hcarries hphases htracked =>
    obtain ⟨phase, records, h⟩ := hhead _ hold hcarries
    exact ⟨phase, records, htracked phase records h⟩

/-- **A commit extends a valid history.** -/
theorem Commit.validHistory (h : Commit formats reg entityID (current commits ()) newer)
    (hhead : HeadTracked formats reg entityID commits)
    (hvalid : ValidHistory formats reg entityID (life commits ())) :
    ValidHistory formats reg entityID (newer :: life commits ()) := by
  have hlife := current_eq_head?_life commits ()
  cases h with
  | birth hnew hone htracked =>
    refine ⟨fun _ => htracked.validState hone, ?_, hvalid⟩
    intro older hold hcarried
    rw [← hlife] at hold
    exact absurd hcarried (by simp [Carries, hnew older hold])
  | @transition cur newPhase hold hcarries hone htracked =>
    obtain ⟨phase, records, h⟩ := hhead cur hold hcarries
    obtain ⟨hedge, _, h'⟩ := htracked phase records h
    refine ⟨fun _ => h'.validState hone, ?_, hvalid⟩
    intro older holder
    rw [← hlife, hold] at holder
    exact Option.some.inj holder ▸ h.follows h' (.inr hedge)
  | @update cur hold hcarries hphases htracked =>
    obtain ⟨phase, records, h⟩ := hhead cur hold hcarries
    have h' := htracked phase records h
    -- the state before is the head of a valid history
    have hone : (phasesOf reg cur).length = 1 := by
      rw [hold] at hlife
      cases hrest : life commits () with
      | nil =>
        rw [hrest] at hlife
        cases hlife
      | cons older rest =>
        rw [hrest] at hlife hvalid
        cases hlife
        exact (hvalid.1 hcarries).one
    refine ⟨fun _ => h'.validState (by rw [hphases]; exact hone), ?_, hvalid⟩
    intro older holder
    rw [← hlife, hold] at holder
    exact Option.some.inj holder ▸ h.follows h' (.inl rfl)

end Histories

/-! ## Clients side by side -/

variable (formats : Formats) (reg : Registration) (entityID : String)

/-- Nobody is calling yet. -/
def Clients.start (commits : Commits) : Clients := ⟨commits, fun _ => none⟩

/-- A call under way leaves the phase to the manager, and its request was computed
from what was read. -/
def Call.Sound (commits : Commits) : Call → Prop
  | .calling op _ => op.PhaseUnset reg
  | .requesting _ _ request =>
    ∃ seen, Planned formats reg entityID seen request ∧ Fresh commits () seen

/-- **What every reachable state keeps.** -/
structure Clients.Sound (s : Clients) : Prop where
  pending : ∀ n call, s.calls n = some call → call.Sound formats reg entityID s.commits
  tracked : HeadTracked formats reg entityID s.commits
  valid : ValidHistory formats reg entityID (life s.commits ())

variable {formats reg entityID} {s : Clients} {n : ℕ} {commits : Commits}

theorem validHistory_of_not_carries {history : List (List Triple)}
    (h : ∀ v ∈ history, ¬ Carries reg entityID v) : ValidHistory formats reg entityID history := by
  induction history with
  | nil => trivial
  | cons v rest ih =>
    obtain ⟨hv, hrest⟩ := forall_mem_cons.1 h
    refine ⟨fun hc => absurd hc hv, fun older hold hc => ?_, ih hrest⟩
    exact absurd hc (hrest older (mem_of_head? hold))

theorem Clients.sound_start (h : ∀ v ∈ life commits (), ¬ Carries reg entityID v) :
    (Clients.start commits).Sound formats reg entityID where
  pending := nofun
  tracked := by
    intro cur hcur hcarries
    refine absurd hcarries (h cur (mem_of_head? ?_))
    rw [← current_eq_head?_life]
    exact hcur
  valid := validHistory_of_not_carries h

variable {op : Op}

/-- A call that goes on. -/
theorem Clients.Sound.move (hs : s.Sound formats reg entityID)
    (hcall : ∀ c, call = some c → c.Sound formats reg entityID s.commits) :
    Clients.Sound formats reg entityID { s with calls := update s.calls n call } where
  pending := forall_slot_update hcall hs.pending
  tracked := hs.tracked
  valid := hs.valid

theorem Clients.Sound.commit (hs : s.Sound formats reg entityID)
    (htracked : HeadTracked formats reg entityID (((), w) :: s.commits))
    (hvalid : ValidHistory formats reg entityID (life (((), w) :: s.commits) ())) :
    Clients.Sound formats reg entityID { s with commits := ((), w) :: s.commits } where
  pending := by
    intro n call hn
    have hcall := hs.pending n call hn
    cases call with
    | calling op retry => exact hcall
    | requesting op retry request =>
      obtain ⟨seen, hplanned, hfresh⟩ := hcall
      exact ⟨seen, hplanned, hfresh.cons _⟩
  tracked := htracked
  valid := hvalid

/-- What a call makes of its read. -/
theorem sound_of_read (hunset : op.PhaseUnset reg) (hfresh : clock.fresh commits)
    (h : attempt formats reg entityID op (snapshot commits ()) clock = .ok (.request request)) :
    ∃ seen, Planned formats reg entityID seen request ∧ Fresh commits () seen := by
  simp only [Clock.fresh, Bool.and_eq_true, decide_eq_true_eq, List.all_eq_true] at hfresh
  refine ⟨_, Planned.computed hunset hfresh.1 ?_ h, fresh_snapshot commits ()⟩
  intro _ r hsnap
  obtain ⟨hcur, -⟩ := snapshot_eq_some hsnap
  rw [hcur] at hfresh
  exact hfresh.2

/-- A call goes on with a transition, never with a create. -/
theorem phaseUnset_of_goOn {seen : Snapshot (List Triple)}
    (h : attempt formats reg entityID op seen clock = .ok (.goOn op')) : op'.PhaseUnset reg := by
  cases op' with
  | create initial byOperator =>
    simp only [attempt, attemptCreate, attemptTransition, attemptUpdate] at h
    (repeat' split at h) <;> cases h
  | _ => trivial

/-- What the answer to a request leaves of its call. -/
theorem sound_next
    (h : op.next retry commits reply = some call) : call.Sound formats reg entityID commits := by
  unfold Op.next at h
  split at h
  · split at h <;> cases h
    exact ⟨none, .delete rfl, nofun⟩
  · split at h
    · obtain ⟨-, ⟨⟩⟩ := ite_none_right_eq_some.1 h
      trivial
    · obtain ⟨-, ⟨⟩⟩ := ite_none_right_eq_some.1 h
      trivial
    · cases h
  · cases h

/-- **A step keeps the history valid**, if it is no create with the phase field set. -/
theorem Clients.Sound.step (hsep : reg.Separate) (hs : s.Sound formats reg entityID)
    (hunset : ∀ n op, e = .call n op → op.PhaseUnset reg)
    (h : clientStep formats reg entityID s e = some s') : s'.Sound formats reg entityID := by
  cases e with (simp only [clientStep] at h; (try split at h <;> try contradiction); try cases h)
  | call n op =>
    refine hs.move ?_
    rintro _ ⟨⟩
    exact hunset n op rfl
  | read n clock =>
    rename_i op retry hcall
    split at h <;> cases h
    next hfresh =>
    refine hs.move fun c hc => ?_
    split at hc <;> cases hc
    · next hattempt => exact sound_of_read (hs.pending n _ hcall) hfresh hattempt
    · next hattempt => exact phaseUnset_of_goOn hattempt
  | write n =>
    rename_i op retry request hcall
    obtain ⟨_, hplanned, hfresh⟩ := hs.pending n _ hcall
    split
    · next _ happ =>
      rcases commit_of_applied hsep hplanned hfresh happ with rfl | rfl | ⟨new, rfl, hcommit⟩
      · exact hs.move fun _ => sound_next
      · exact (hs.commit (w := none) (by rintro _ ⟨⟩) trivial).move fun _ => sound_next
      · refine (hs.commit ?_ ?_).move fun _ => sound_next
        · rintro _ ⟨⟩ -
          exact hcommit.tracked hs.tracked
        · rw [life_write_self]
          exact hcommit.validHistory hs.tracked hs.valid
    · exact hs.move fun _ => sound_next
  | abandon n => exact hs.move (by rintro _ ⟨⟩)

/-- **The history of an entity is a run of its workflow** where no participant
comes with the phase field set. Any number of clients, any interleaving, any
clock, and an entity that may be there before it gets its lifecycle. -/
theorem valid_history (hsep : reg.Separate) {es : List ClientEvent}
    (hnew : ∀ v ∈ life commits (), ¬ Carries reg entityID v)
    (hunset : ∀ n initial byOperator, .call n (.create initial byOperator) ∈ es →
      reg.PhaseUnset initial)
    (hrun : run (clientStep formats reg entityID) (Clients.start commits) es = some s) :
    ValidHistory formats reg entityID (life s.commits ()) := by
  refine (run_invariant_along (C := fun _ e => e ∈ es) (fun t e t' ht he hstep => ?_)
    (Clients.sound_start hnew) (along_of_forall_mem fun _ _ he => he) hrun :
    s.Sound formats reg entityID).valid
  refine ht.step hsep ?_ hstep
  rintro n op rfl
  cases op with
  | create initial byOperator => exact hunset n initial byOperator he
  | _ => trivial

/-! ## A mission -/

/-- Times as decimal digits. -/
def decimalFormats : Formats where
  format t := String.ofList (Nat.toDigits 10 t)
  parse text := some (Nat.ofDigitChars 10 text.toList 0)
  parse_format := fun t => by simp [Nat.ofDigitChars_toDigits]
  sprint text := text

def missionTable : Transitions where
  items := [("planning", ["flying"]), ("flying", ["completed"]), ("completed", [])]
  nodup := by decide

def phaseField : FieldMeta where
  jsonName := "phase"
  predicate := "mission.lifecycle.phase"
  isPhase := true
  readOnly := true

/-- A workflow with nothing but its id and its phase field. -/
def mission : Registration where
  workflow :=
    { name := "mission"
      entityIDPattern := "*.*.*.*.mission.*"
      transitions := missionTable
      phasePredicate := "mission.lifecycle.phase" }
  fields := [{ jsonName := "id", predicate := "", isID := true, readOnly := true }, phaseField]
  table := by decide
  roles := by decide
  writable := by decide
  jsonNames := by decide
  predicates := by decide

def missionID : String := "c360.prod.gcs.lifecycle.mission.m1"

theorem mission_separate : mission.Separate where
  phase := by decide
  audit := by
    intro p hp hne
    exact absurd (by simpa [mission] using hp) hne
  fields := by
    intro f hf hphase
    rw [mem_singleton.1 hf] at hphase
    exact Bool.noConfusion hphase
  phaseField := by
    intro f hf _
    rw [mem_singleton.1 hf]
    decide

/-- A participant that reports its phase and leaves its phase field unset. -/
def unsetMission : Participant := ⟨"planning", fun _ => none⟩

/-- A participant as every schema writes it: `Phase()` returns the phase field. -/
def setMission : Participant :=
  ⟨"planning", fun p => if p = "mission.lifecycle.phase" then some (.text "planning") else none⟩

def clockAt (now : ℕ) (uuid : String) : Clock := ⟨now, fun i => now + i, uuid⟩

/-- Two clients race for a transition, and one of them loses. -/
def missionRun : List ClientEvent :=
  [.call 0 (.create unsetMission false), .read 0 (clockAt 10 "u1"), .write 0,
    .call 0 (.transition "flying" "rule" "go" none false),
    .call 1 (.transition "flying" "operator" "" none false),
    .read 0 (clockAt 7 "u2"), .read 1 (clockAt 8 "u3"), .write 1, .write 0]

set_option maxRecDepth 20000 in
theorem valid_history_mission :
    ∃ s, run (clientStep decimalFormats mission missionID) (Clients.start []) missionRun = some s ∧
      s.commits.length = 2 ∧ ValidHistory decimalFormats mission missionID (life s.commits ()) := by
  refine exists_end (P := fun s => s.commits.length = 2) (by decide +kernel) fun s hrun hs => ?_
  refine ⟨hs, valid_history mission_separate (by simp [life]) ?_ hrun⟩
  intro n initial byOperator hcall
  obtain ⟨-, rfl, -⟩ : n = 0 ∧ initial = unsetMission ∧ byOperator = false := by
    simpa [missionRun] using hcall
  exact fun _ _ _ _ _ => rfl

set_option maxRecDepth 20000 in
/-- `Create` of a participant with its phase field set commits two phase triples. -/
theorem create_commits_phase_twice :
    ∃ s, run (clientStep decimalFormats mission missionID) (Clients.start [])
        [.call 0 (.create setMission false), .read 0 (clockAt 10 "u1"), .write 0] = some s ∧
      (∃ cur, current s.commits () = some cur ∧ (phasesOf mission cur).length = 2) ∧
      ¬ ValidHistory decimalFormats mission missionID (life s.commits ()) := by
  refine ⟨_, rfl, ⟨_, rfl, rfl⟩, fun h => ?_⟩
  have hone : 2 = 1 := (h.1 rfl).one
  exact absurd hone (by decide)

end SemStreams.Lifecycle
