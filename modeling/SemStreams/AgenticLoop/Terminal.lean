import SemStreams.Lib.Run
import SemStreams.Lib.Bucket
import SemStreams.Lib.Slots
/-!
# agentic-loop — one terminal outcome for a loop

A loop ends once: completed, failed or cancelled. Four places tell how. The
entity in a process's memory is moved first, by the handler; then the terminal
owner, `commitTerminal`, creates the marker `COMPLETE_<loopID>` if there is none
and adopts the saved terminal if there is one, publishes the terminal event,
and writes the loop record from the entity under compare-and-swap. Any of these
calls may fail, also after its effect, and a process may crash between them; a
redelivery starts over.

The model has any number of processes and of attempts in each. A failed attempt
releases the loop, a process that holds no loop may rebuild it from a live
record, and the cancel lane may adopt a durable cancel on its own.

`terminal_agreement` is the result. `failTimedOutLoop` does not look at the
answer of its transition: where a cancel came first, it commits a failure over
an entity that says cancelled.
-/

namespace SemStreams.AgenticLoop

open List Function Option

/-- The kinds of `terminalOutcome`. -/
inductive Outcome
  | completed
  | failed
  | cancelled
deriving DecidableEq

/-- The loop as a process holds it: its terminal state, and the record revision
it observed. -/
structure HeldLoop where
  state : Option Outcome
  observed : ℕ

/-- Where an attempt stands. A candidate without an event is the failure of a
loop that was gone when its event was built. -/
inductive Stage
  /-- the terminal guard of the handler is passed -/
  | entered
  | creating (candidate : Option Outcome)
  | publishing (outcome : Option Outcome) (adopted : Bool)
  | settling (outcome : Option Outcome) (adopted : Bool)
  | writing
  /-- `adoptDurableCancel` -/
  | cancelPublishing
  | cancelReading
  | cancelWriting (revision : ℕ)
deriving DecidableEq

structure Attempt where
  process : ℕ
  stage : Stage

/-- The marker, the events published, the record with its revision, and what
the processes hold and do. -/
structure Terminals where
  memory : ℕ → Option HeldLoop
  attempts : ℕ → Option Attempt
  marker : Option Outcome
  /-- history: the markers created -/
  creations : List Outcome
  events : List Outcome
  record : Option Outcome
  revision : ℕ

namespace Terminals

variable (s : Terminals)

def advance (i p : ℕ) (stage : Stage) : Terminals :=
  { s with attempts := update s.attempts i (some ⟨p, stage⟩) }

def finish (i : ℕ) : Terminals := { s with attempts := update s.attempts i none }

/-- `releaseLoopTransientState`. -/
def releaseLoop (p : ℕ) : Terminals := { s with memory := update s.memory p none }

/-- `commitTerminal` on an error: memory keeps no terminal that did not commit. -/
def giveUp (i p : ℕ) : Terminals := (s.finish i).releaseLoop p

def hold (p : ℕ) (loop : HeldLoop) : Terminals :=
  { s with memory := update s.memory p (some loop) }

def createMarker (outcome : Outcome) : Terminals :=
  { s with marker := some outcome, creations := s.creations ++ [outcome] }

def publishEvent (outcome : Option Outcome) : Terminals :=
  { s with events := s.events ++ outcome.toList }

def writeRecord (state : Option Outcome) : Terminals :=
  { s with record := state, revision := s.revision + 1 }

/-- `createTerminalMarker`: created, or adopted where one is saved. -/
def createTerminalMarker (i p : ℕ) (candidate : Option Outcome) (answer : StoreAnswer)
    (readBack : Bool) : Terminals :=
  match candidate, s.marker with
  | none, _ => s.advance i p (.publishing none false)
  | some outcome, none =>
    match answer with
    | .ok => (s.createMarker outcome).advance i p (.publishing (some outcome) false)
    | .failed landed => (if landed then s.createMarker outcome else s).giveUp i p
  | some _, some saved =>
    if readBack then s.advance i p (.publishing (some saved) true) else s.giveUp i p

/-- `settleTerminal`: an adopted terminal re-seats the entity. A loop that is
not held cannot be written. -/
def settleTerminal (i p : ℕ) (outcome : Option Outcome) (adopted : Bool) : Terminals :=
  match s.memory p with
  | none => s.giveUp i p
  | some loop =>
    (s.hold p (if adopted then { loop with state := outcome } else loop)).advance i p .writing

/-- `persistLoopState`: the record is rendered from the entity as it is. A lost
compare-and-swap releases the loop. -/
def persistLoopState (i p : ℕ) (answer : StoreAnswer) : Terminals :=
  match s.memory p with
  | none => s.giveUp i p
  | some loop =>
    if loop.observed ≠ s.revision then s.giveUp i p
    else
      match answer with
      | .ok => ((s.writeRecord loop.state).hold p { loop with observed := s.revision + 1 }).finish i
      | .failed landed => (if landed then s.writeRecord loop.state else s).giveUp i p

/-- `failTimedOutLoop`: the transition to failed may be refused, the failure is
built all the same, unless the loop is gone. -/
def failTimedOutLoop (i p : ℕ) : Terminals :=
  match s.memory p with
  | none => s.advance i p (.creating none)
  | some loop =>
    (s.hold p { loop with state := some (loop.state.getD .failed) }).advance i p
      (.creating (some .failed))

end Terminals

inductive TerminalEvent
  /-- a handler passes the terminal guard -/
  | enter (i p : ℕ)
  /-- it moves the loop to a terminal state by `TransitionLoop` -/
  | transition (i : ℕ) (outcome : Outcome)
  /-- it finds the loop past its deadline -/
  | timeOut (i : ℕ)
  /-- `CancelLoop` -/
  | cancel (i p : ℕ)
  | create (i : ℕ) (answer : StoreAnswer) (readBack : Bool)
  | publish (i : ℕ) (answer : StoreAnswer)
  | settle (i : ℕ)
  | persist (i : ℕ) (answer : StoreAnswer)
  /-- any other error of the attempt: a graph stamp, a cancelled context -/
  | abandon (i : ℕ)
  | adoptCancel (i p : ℕ)
  | cancelPublish (i : ℕ) (answer : StoreAnswer)
  | cancelRead (i : ℕ)
  | cancelWrite (i : ℕ) (answer : StoreAnswer)
  /-- another delivery writes the live loop -/
  | carry (p : ℕ) (answer : StoreAnswer)
  | release (p : ℕ)
  /-- a redelivery rebuilds the loop from its record -/
  | restore (p : ℕ)
  | crash (p : ℕ)

open Terminals in
/-- One call of an attempt, or a step of its surroundings. -/
def terminalStep (s : Terminals) : TerminalEvent → Option Terminals
  | .enter i p =>
    match s.attempts i, s.memory p with
    | none, some ⟨none, _⟩ => some (s.advance i p .entered)
    | _, _ => none
  | .transition i outcome =>
    match s.attempts i with
    | some ⟨p, .entered⟩ =>
      match s.memory p with
      | some loop =>
        -- a loop in another terminal state refuses the transition
        if loop.state = none ∨ loop.state = some outcome then
          some ((s.hold p { loop with state := some outcome }).advance i p
            (.creating (some outcome)))
        else some (s.finish i)
      | none => some (s.finish i)
    | _ => none
  | .timeOut i =>
    match s.attempts i with
    | some ⟨p, .entered⟩ => some (s.failTimedOutLoop i p)
    | _ => none
  | .cancel i p =>
    match s.attempts i, s.memory p with
    | none, some ⟨none, observed⟩ =>
      some ((s.hold p ⟨some .cancelled, observed⟩).advance i p (.creating (some .cancelled)))
    | _, _ => none
  | .create i answer readBack =>
    match s.attempts i with
    | some ⟨p, .creating candidate⟩ => some (s.createTerminalMarker i p candidate answer readBack)
    | _ => none
  | .publish i answer =>
    match s.attempts i with
    | some ⟨p, .publishing outcome adopted⟩ =>
      match answer with
      | .ok => some ((s.publishEvent outcome).advance i p (.settling outcome adopted))
      | .failed landed => some ((if landed then s.publishEvent outcome else s).giveUp i p)
    | _ => none
  | .settle i =>
    match s.attempts i with
    | some ⟨p, .settling outcome adopted⟩ => some (s.settleTerminal i p outcome adopted)
    | _ => none
  | .persist i answer =>
    match s.attempts i with
    | some ⟨p, .writing⟩ => some (s.persistLoopState i p answer)
    | _ => none
  | .abandon i =>
    match s.attempts i with
    | some ⟨p, _⟩ => some (s.giveUp i p)
    | none => none
  | .adoptCancel i p =>
    match s.attempts i, s.memory p with
    | none, none =>
      if s.marker = some .cancelled then some (s.advance i p .cancelPublishing) else none
    | _, _ => none
  | .cancelPublish i answer =>
    match s.attempts i with
    | some ⟨p, .cancelPublishing⟩ =>
      match answer with
      | .ok => some ((s.publishEvent (some .cancelled)).advance i p .cancelReading)
      | .failed landed => some ((if landed then s.publishEvent (some .cancelled) else s).finish i)
    | _ => none
  | .cancelRead i =>
    match s.attempts i with
    | some ⟨p, .cancelReading⟩ =>
      -- a record that is terminal is settled
      if s.record = none then some (s.advance i p (.cancelWriting s.revision))
      else some (s.finish i)
    | _ => none
  | .cancelWrite i answer =>
    match s.attempts i with
    | some ⟨_, .cancelWriting revision⟩ =>
      if revision ≠ s.revision then some (s.finish i)
      else
        match answer with
        | .ok => some ((s.writeRecord (some .cancelled)).finish i)
        | .failed landed => some ((if landed then s.writeRecord (some .cancelled) else s).finish i)
    | _ => none
  | .carry p answer =>
    match s.memory p with
    | some ⟨none, observed⟩ =>
      if observed ≠ s.revision then some (s.releaseLoop p)
      else
        match answer with
        | .ok => some ((s.writeRecord none).hold p ⟨none, s.revision + 1⟩)
        | .failed landed => some (if landed then s.writeRecord none else s)
    | _ => none
  | .release p => some (s.releaseLoop p)
  | .restore p =>
    match s.memory p, s.record with
    | none, none => some (s.hold p ⟨none, s.revision⟩)
    | _, _ => none
  | .crash p =>
    some { s.releaseLoop p with
      attempts := fun i => (s.attempts i).filter fun a => a.process ≠ p }

/-- A live loop no process holds. -/
def Terminals.initial : Terminals where
  memory := fun _ => none
  attempts := fun _ => none
  marker := none
  creations := []
  events := []
  record := none
  revision := 0

/-! ## What an attempt may rely on -/

/-- The attempt has a candidate and may come to write the record from memory. -/
def Stage.committing : Stage → Bool
  | .creating _ => true
  | .publishing _ _ => true
  | .settling _ _ => true
  | .writing => true
  | _ => false

/-- Past the marker: the outcome is the marker's, and memory says so unless it
is still to be re-seated. A loop that is gone stays gone. -/
def OutcomeOk (marker : Option Outcome) (held : Option (Option Outcome)) :
    Option Outcome → Bool → Prop
  | none, _ => held = none
  | some outcome, adopted =>
    marker = some outcome ∧ (adopted = true ∨ held = none ∨ held = some (some outcome))

/-- **The assertion at each stage**, given the marker and the state in the
memory of the attempt's process. -/
def StageOk (marker : Option Outcome) (held : Option (Option Outcome)) : Stage → Prop
  | .entered => True
  | .creating none => held = none
  | .creating (some outcome) =>
    held = none ∨ held = some (some outcome) ∨ (marker.isSome = true ∧ held = some marker)
  | .publishing outcome adopted => OutcomeOk marker held outcome adopted
  | .settling outcome adopted => OutcomeOk marker held outcome adopted
  | .writing => marker.isSome = true ∧ (held = none ∨ held = some marker)
  | .cancelPublishing => marker = some .cancelled
  | .cancelReading => marker = some .cancelled
  | .cancelWriting _ => marker = some .cancelled

/-- The terminal state in the memory of a process, if it holds the loop. -/
def Terminals.held (s : Terminals) (p : ℕ) : Option (Option Outcome) :=
  (s.memory p).map HeldLoop.state

/-- **The agreement**: one marker, and everything else names its outcome. -/
structure Agreed (s : Terminals) : Prop where
  events : ∀ outcome ∈ s.events, s.marker = some outcome
  record : ∀ outcome, s.record = some outcome → s.marker = some outcome
  creations : s.creations = s.marker.toList
  attempts : ∀ i a, s.attempts i = some a → StageOk s.marker (s.held a.process) a.stage

/-- The condition on a step: the timeout arm finds a loop that is not over, and
a rebuilt loop finds no attempt under way that may write it. -/
def Undisputed (s : Terminals) : TerminalEvent → Prop
  | .timeOut i => ∀ p, s.attempts i = some ⟨p, .entered⟩ → ∀ outcome, s.held p ≠ some (some outcome)
  | .restore p => ∀ i a, s.attempts i = some a → a.process = p → a.stage.committing = false
  | _ => True

variable {marker : Option Outcome} {held : Option (Option Outcome)} {stage : Stage}

theorem outcomeOk_gone
    (h : OutcomeOk marker held outcome adopted) : OutcomeOk marker none outcome adopted := by
  cases outcome with
  | none => rfl
  | some outcome => exact ⟨h.1, .inr (.inl rfl)⟩

theorem stageOk_gone (h : StageOk marker held stage) : StageOk marker none stage := by
  cases stage with
  | creating candidate =>
    cases candidate with
    | none => rfl
    | some outcome => exact .inl rfl
  | publishing | settling => exact outcomeOk_gone h
  | writing => exact ⟨h.1, .inl rfl⟩
  | _ => exact h

/-- An attempt that tolerates a live loop does not look at memory. -/
theorem stageOk_live (h : StageOk marker (some none) stage) (held' : Option (Option Outcome)) :
    StageOk marker held' stage := by
  have hne : marker.isSome → ¬ (some (none : Option Outcome) = some marker) := by
    intro hsome heq
    rw [← Option.some.inj heq] at hsome
    contradiction
  cases stage with
  | creating candidate =>
    cases candidate with
    | none => contradiction
    | some outcome =>
      rcases h with h | h | ⟨hsome, h⟩
      · contradiction
      · cases Option.some.inj h
      · exact absurd h (hne hsome)
  | publishing outcome | settling outcome =>
    cases outcome with
    | none => contradiction
    | some outcome =>
      obtain ⟨hmarker, hadopted | h | h⟩ := h
      · exact ⟨hmarker, .inl hadopted⟩
      · contradiction
      · cases Option.some.inj h
  | writing =>
    obtain ⟨hsome, h | h⟩ := h
    · contradiction
    · exact absurd h (hne hsome)
  | _ => exact h

/-- The entity may be re-seated to the marker's outcome. -/
theorem stageOk_reseat (hmarker : marker = some outcome)
    (h : StageOk marker (some state) stage) : StageOk marker (some (some outcome)) stage := by
  subst hmarker
  cases stage with
  | creating candidate =>
    cases candidate with
    | none => contradiction
    | some _ => exact .inr (.inr ⟨rfl, rfl⟩)
  | publishing saved | settling saved =>
    cases saved with
    | none => contradiction
    | some saved => exact ⟨h.1, .inr (.inr (by rw [h.1]))⟩
  | writing => exact ⟨rfl, .inr rfl⟩
  | _ => exact h

/-- The first marker disturbs no attempt. -/
theorem stageOk_marked (outcome : Outcome) (h : StageOk none held stage) :
    StageOk (some outcome) held stage := by
  have houtcome : ∀ saved adopted, OutcomeOk none held saved adopted →
      OutcomeOk (some outcome) held saved adopted := by
    intro saved adopted hok
    cases saved with
    | none => exact hok
    | some saved => exact absurd hok.1 nofun
  cases stage with
  | entered => trivial
  | creating candidate =>
    cases candidate with
    | none => exact h
    | some candidate =>
      rcases h with h | h | ⟨h, -⟩
      · exact .inl h
      · exact .inr (.inl h)
      · contradiction
  | publishing saved adopted => exact houtcome saved adopted h
  | settling saved adopted => exact houtcome saved adopted h
  | writing => exact absurd h.1 nofun
  | _ => exact absurd h nofun

/-- Nor does an attempt without a candidate. -/
theorem stageOk_idle (hidle : stage.committing = false) (h : StageOk marker held stage)
    (held' : Option (Option Outcome)) : StageOk marker held' stage := by
  cases stage with
  | creating | publishing | settling | writing => contradiction
  | _ => exact h

namespace Agreed

variable {s : Terminals} {i p : ℕ}

theorem advance (h : Agreed s) (hstage : StageOk s.marker (s.held p) stage) :
    Agreed (s.advance i p stage) := by
  refine { h with attempts := ?_ }
  exact forall_slot_fill
    (P := fun _ (a : Attempt) => StageOk s.marker (s.held a.process) a.stage) hstage h.attempts

theorem finish (h : Agreed s) : Agreed (s.finish i) := by
  refine { h with attempts := ?_ }
  exact forall_slot_free
    (P := fun _ (a : Attempt) => StageOk s.marker (s.held a.process) a.stage) h.attempts

/-- Memory changes in one process: its attempts must bear the change. -/
theorem remember (h : Agreed s)
    (hbear : ∀ i a, s.attempts i = some a → a.process = p → StageOk s.marker (s.held p) a.stage →
      StageOk s.marker (loop.map HeldLoop.state) a.stage) :
    Agreed { s with memory := update s.memory p loop } := by
  refine { h with attempts := fun i a ha => ?_ }
  have hok := h.attempts i a ha
  show StageOk s.marker ((update s.memory p loop a.process).map HeldLoop.state) a.stage
  by_cases hp : a.process = p
  · rw [hp, update_self]
    rw [hp] at hok
    exact hbear i a ha hp hok
  · rw [update_of_ne hp]
    exact hok

theorem releaseLoop (h : Agreed s) : Agreed (s.releaseLoop p) :=
  h.remember fun _ _ _ _ hok => stageOk_gone hok

theorem giveUp (h : Agreed s) : Agreed (s.giveUp i p) := h.finish.releaseLoop

theorem hold (h : Agreed s)
    (hbear : ∀ stage, StageOk s.marker (s.held p) stage → StageOk s.marker (some loop.state) stage) :
    Agreed (s.hold p loop) :=
  h.remember fun _ _ _ _ hok => hbear _ hok

theorem createMarker (h : Agreed s) (hmarker : s.marker = none) (outcome : Outcome) :
    Agreed (s.createMarker outcome) := by
  refine ⟨fun event hevent => ?_, fun state hstate => ?_, ?_, fun i a ha => ?_⟩
  · have hsome := h.events event hevent
    rw [hmarker] at hsome
    contradiction
  · have hsome := h.record state hstate
    rw [hmarker] at hsome
    contradiction
  · show s.creations ++ [outcome] = [outcome]
    rw [h.creations, hmarker]
    rfl
  · have hok := h.attempts i a ha
    rw [hmarker] at hok
    exact stageOk_marked outcome hok

theorem publishEvent (h : Agreed s)
    (hmarker : ∀ k, outcome = some k → s.marker = some k) : Agreed (s.publishEvent outcome) := by
  refine { h with events := fun event hevent => ?_ }
  rcases mem_append.1 hevent with hevent | hevent
  · exact h.events event hevent
  · exact hmarker event (mem_toList.1 hevent)

theorem writeRecord (h : Agreed s)
    (hmarker : ∀ k, state = some k → s.marker = some k) : Agreed (s.writeRecord state) :=
  { h with record := hmarker }

end Agreed

variable {s : Terminals} {p : ℕ}

/-- A handler that moves the loop itself has memory on its side. -/
theorem agreed_begin (h : Agreed s) (hheld : s.memory p = some loop)
    (hstate : loop.state = none ∨ loop.state = some outcome) :
    Agreed ((s.hold p { loop with state := some outcome }).advance i p (.creating (some outcome))) := by
  have hmem : s.held p = some loop.state := by rw [Terminals.held, hheld]; rfl
  have hhold : Agreed (s.hold p { loop with state := some outcome }) := by
    refine h.hold fun stage hok => ?_
    rw [hmem] at hok
    rcases hstate with hlive | hsame
    · rw [hlive] at hok
      exact stageOk_live hok _
    · rw [hsame] at hok
      exact hok
  refine hhold.advance (.inr (.inl ?_))
  simp [Terminals.held, Terminals.hold]

variable {outcome : Option Outcome}

theorem marker_of_outcomeOk (h : OutcomeOk s.marker (s.held p) outcome adopted) :
    ∀ k, outcome = some k → s.marker = some k := by
  rintro k rfl
  exact h.1

/-- **After `settleTerminal` memory names the marker's outcome.** -/
theorem agreed_settleTerminal (h : Agreed s)
    (hstage : OutcomeOk s.marker (s.held p) outcome adopted) :
    Agreed (s.settleTerminal i p outcome adopted) := by
  unfold Terminals.settleTerminal
  cases hheld : s.memory p with
  | none => exact h.giveUp
  | some loop =>
    have hmem : s.held p = some loop.state := by rw [Terminals.held, hheld]; rfl
    cases outcome with
    | none =>
      rw [hmem] at hstage
      contradiction
    | some outcome =>
      obtain ⟨hmarker, hstage⟩ := hstage
      have hhold : ∀ loop' : HeldLoop, loop'.state = some outcome →
          Agreed ((s.hold p loop').advance i p .writing) := by
        intro loop' hstate
        have hagreed : Agreed (s.hold p loop') := by
          refine h.hold fun stage hok => ?_
          rw [hmem] at hok
          rw [hstate]
          exact stageOk_reseat hmarker hok
        refine hagreed.advance ⟨?_, .inr ?_⟩
        · show s.marker.isSome = true
          rw [hmarker]
          rfl
        · simp [Terminals.held, Terminals.hold, hstate, hmarker]
      cases adopted with
      | true => exact hhold _ rfl
      | false =>
        refine hhold loop ?_
        rcases hstage with _ | hgone | hsame
        · contradiction
        · rw [hmem] at hgone
          contradiction
        · rw [hmem] at hsame
          exact Option.some.inj hsame

/-- **The record is written from a memory that names the marker's outcome.** -/
theorem agreed_persistLoopState (h : Agreed s) (hstage : StageOk s.marker (s.held p) .writing)
    (answer : StoreAnswer) : Agreed (s.persistLoopState i p answer) := by
  unfold Terminals.persistLoopState
  cases hheld : s.memory p with
  | none => exact h.giveUp
  | some loop =>
    have hmem : s.held p = some loop.state := by rw [Terminals.held, hheld]; rfl
    have hstate : loop.state = s.marker := by
      rcases hstage.2 with hgone | hsame
      · rw [hmem] at hgone
        contradiction
      · rw [hmem] at hsame
        exact Option.some.inj hsame
    have hwritten : Agreed (s.writeRecord loop.state) :=
      h.writeRecord fun k hk => hstate.symm.trans hk
    dsimp only
    split_ifs
    · exact h.giveUp
    rcases answer with _ | _ | _
    · refine Agreed.finish (hwritten.hold fun stage hok => ?_)
      rw [← hmem]
      exact hok
    · exact h.giveUp
    · exact hwritten.giveUp

/-- **What one step keeps.** -/
theorem agreed_terminalStep (h : Agreed s) (hcond : Undisputed s e)
    (hstep : terminalStep s e = some s') : Agreed s' := by
  -- every event runs its step; the branches that refuse it are closed at once
  cases e with
      (simp only [terminalStep] at hstep; (try split at hstep <;> try contradiction); try cases hstep)
  | enter i p => exact h.advance trivial
  | transition i outcome =>
    split at hstep
    · rename_i loop hheld
      split_ifs at hstep with hstate <;> cases hstep
      · exact agreed_begin h hheld hstate
      · exact h.finish
    · cases hstep
      exact h.finish
  | timeOut i =>
    rename_i p hattempt
    unfold Terminals.failTimedOutLoop
    cases hheld : s.memory p with
    | none =>
      refine h.advance ?_
      rw [Terminals.held, hheld]
      rfl
    | some loop =>
      -- the loop is not over, so the transition is not refused
      have hlive : loop.state = none := by
        cases hstate : loop.state with
        | none => rfl
        | some outcome =>
          refine absurd ?_ (hcond p hattempt outcome)
          rw [Terminals.held, hheld, map_some, hstate]
      simp only [hlive, getD_none]
      exact agreed_begin h hheld (.inl hlive)
  | cancel i p =>
    rename_i observed hattempt hheld
    exact agreed_begin h hheld (.inl rfl)
  | create i answer readBack =>
    rename_i p _ hattempt
    have hstage := h.attempts i _ hattempt
    unfold Terminals.createTerminalMarker
    split
    · exact h.advance hstage
    · rename_i outcome hmarker
      have hcreated := h.createMarker hmarker outcome
      rcases answer with _ | _ | _
      · refine hcreated.advance ⟨rfl, .inr ?_⟩
        rcases hstage with hgone | hsame | ⟨hsome, -⟩
        · exact .inl hgone
        · exact .inr hsame
        · rw [hmarker] at hsome
          contradiction
      · exact h.giveUp
      · exact hcreated.giveUp
    · rename_i _ hmarker
      split_ifs
      · exact h.advance ⟨hmarker, .inl rfl⟩
      · exact h.giveUp
  | publish i answer =>
    rename_i p outcome adopted hattempt
    have hstage : OutcomeOk s.marker (s.held p) outcome adopted := h.attempts i _ hattempt
    have hpublished := h.publishEvent (marker_of_outcomeOk hstage)
    rcases answer with _ | _ | _ <;> cases hstep
    · exact hpublished.advance hstage
    · exact h.giveUp
    · exact hpublished.giveUp
  | settle i =>
    rename_i p outcome adopted hattempt
    exact agreed_settleTerminal h (h.attempts i _ hattempt)
  | persist i answer =>
    rename_i p hattempt
    exact agreed_persistLoopState h (h.attempts i _ hattempt) answer
  | abandon i => exact h.giveUp
  | adoptCancel i p =>
    split_ifs at hstep with hmarker
    cases hstep
    exact h.advance hmarker
  | cancelPublish i answer =>
    rename_i p hattempt
    have hmarker : s.marker = some .cancelled := h.attempts i _ hattempt
    have hpublished : Agreed (s.publishEvent (some .cancelled)) :=
      h.publishEvent fun k hk => hk ▸ hmarker
    rcases answer with _ | _ | _ <;> cases hstep
    · exact hpublished.advance hmarker
    · exact h.finish
    · exact hpublished.finish
  | cancelRead i =>
    rename_i p hattempt
    have hmarker : s.marker = some .cancelled := h.attempts i _ hattempt
    split_ifs at hstep <;> cases hstep
    · exact h.advance hmarker
    · exact h.finish
  | cancelWrite i answer =>
    rename_i p _ hattempt
    have hmarker : s.marker = some .cancelled := h.attempts i _ hattempt
    have hwritten : Agreed (s.writeRecord (some .cancelled)) :=
      h.writeRecord fun k hk => hk ▸ hmarker
    split_ifs at hstep
    · cases hstep
      exact h.finish
    · rcases answer with _ | _ | _ <;> cases hstep
      · exact hwritten.finish
      · exact h.finish
      · exact hwritten.finish
  | carry p answer =>
    rename_i observed hheld
    have hwritten : Agreed (s.writeRecord none) := h.writeRecord nofun
    split_ifs at hstep
    · cases hstep
      exact h.releaseLoop
    · rcases answer with _ | _ | _ <;> cases hstep
      · refine hwritten.hold fun stage hok => ?_
        have hmem : s.held p = some none := by rw [Terminals.held, hheld]; rfl
        rw [← hmem]
        exact hok
      · exact h
      · exact hwritten
  | release p => exact h.releaseLoop
  | restore p =>
    -- no attempt of the process may come to write this loop
    exact h.remember fun i a ha hp hok => stageOk_idle (hcond i a ha hp) hok _
  | crash p =>
    have hreleased : Agreed (s.releaseLoop p) := h.releaseLoop
    refine { h with attempts := fun i a ha => ?_ }
    obtain ⟨ha, -⟩ := filter_eq_some_iff.1 ha
    exact hreleased.attempts i a ha

/-- **One terminal outcome.** In every run in which the timeout arm never runs
on a loop that is over in memory, and no loop is rebuilt under an attempt that
may write it: no terminal event is published without the marker, the marker is
created at most once, and every terminal event and the terminal state of the
record are of the marker's kind. -/
theorem terminal_agreement (es : List TerminalEvent) (s : Terminals)
    (hrun : run terminalStep .initial es = some s) (hcond : Along terminalStep Undisputed .initial es) :
    s.creations.length ≤ 1 ∧ (∀ outcome ∈ s.events, s.marker = some outcome) ∧
      ∀ outcome, s.record = some outcome → s.marker = some outcome := by
  have hinitial : Agreed .initial := ⟨nofun, nofun, rfl, nofun⟩
  have hagreed : Agreed s :=
    run_invariant_along (fun _ _ _ h hc hstep => agreed_terminalStep h hc hstep) hinitial hcond hrun
  refine ⟨?_, hagreed.events, hagreed.record⟩
  rw [hagreed.creations]
  cases s.marker with
  | none => exact Nat.zero_le 1
  | some outcome => exact Nat.le_refl 1

/-- A failure is published and its record write is lost in a crash; the loop is
rebuilt in another process, completes there, adopts the failure, and the record
says failed. -/
theorem terminal_agreement_after_crash : ∃ s, run terminalStep .initial
        [.restore 0, .enter 0 0, .timeOut 0, .create 0 .ok true, .publish 0 .ok, .crash 0,
          .restore 1, .enter 1 1, .transition 1 .completed, .create 1 .ok true, .publish 1 .ok,
          .settle 1, .persist 1 .ok] = some s ∧
      s.creations = [.failed] ∧ s.events = [.failed, .failed] ∧ s.record = some .failed ∧
      s.creations.length ≤ 1 ∧ (∀ outcome ∈ s.events, s.marker = some outcome) ∧
      ∀ outcome, s.record = some outcome → s.marker = some outcome := by
  refine' ⟨_, ?run, ?_, ?_, ?_, terminal_agreement _ _ ?run ?_⟩
  iterate 4 rfl
  iterate 6 refine (along_cons rfl).2 ⟨by first | trivial | nofun, ?_⟩
  refine (along_cons rfl).2 ⟨?_, ?_⟩
  · -- the one attempt there was died with its process
    intro i a ha _
    obtain ⟨ha, _⟩ := filter_eq_some_iff.1 ha
    by_cases hi : i = 0
    · subst hi
      cases ha
      contradiction
    · simp [Terminals.initial, Terminals.hold, Terminals.advance, Terminals.failTimedOutLoop,
        Terminals.createTerminalMarker, Terminals.createMarker, Terminals.publishEvent, hi] at ha
  · repeat refine (along_cons rfl).2 ⟨trivial, ?_⟩
    exact trivial

/-- **A timeout overrides a cancel that came first.** A tool-result handler
passes the terminal guard; the loop is cancelled; the handler then finds the
loop past its deadline, its transition is refused, and the failure it built
takes the marker. The event says failed, and the record, written from the
entity, says cancelled. -/
theorem terminal_split_by_timeout : ∃ s, run terminalStep .initial
        [.restore 0, .enter 0 0, .cancel 1 0, .timeOut 0, .create 0 .ok true, .publish 0 .ok,
          .settle 0, .persist 0 .ok] = some s ∧
      s.marker = some .failed ∧ s.events = [.failed] ∧ s.record = some .cancelled :=
  ⟨_, rfl, rfl, rfl, rfl⟩

end SemStreams.AgenticLoop
