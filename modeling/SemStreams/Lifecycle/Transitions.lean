import SemStreams.Lib.Checks
import SemStreams.Lib.Window
import Mathlib.Data.List.Sort
/-!
# Lifecycle — the transitions table

A workflow declares its phases with their out-edges. The table is checked once,
when the workflow is registered, and consulted on every transition; a phase
without out-edges is terminal, and so is one that is not declared.
-/

namespace SemStreams.Lifecycle

open List Option

/-- `lifecycle.Transitions`: the out-edges of each declared phase. -/
abbrev Transitions := Window (Prod.fst : String × List String → String)

/-- What `Transitions.Validate` refuses. -/
inductive TableError
  | empty
  | emptyPhase
  | emptyEdge (phase : String)
  | duplicateEdge (phase target : String)
  | undeclaredEdge (phase target : String)
deriving DecidableEq

namespace Transitions

variable (t : Transitions)

def outEdges (phase : String) : Option (List String) := (t.lookup phase).map Prod.snd

def declared (phase : String) : Bool := (t.outEdges phase).isSome

/-- The loop over the out-edges of one phase. -/
def validateEdges (phase : String) : List String → List String → Except TableError Unit
  | _, [] => .ok ()
  | seen, target :: rest =>
    if target = "" then .error (.emptyEdge phase)
    else if target ∈ seen then .error (.duplicateEdge phase target)
    else if !t.declared target then .error (.undeclaredEdge phase target)
    else validateEdges phase (target :: seen) rest

/-- The loop over the phases. -/
def validateRows : List (String × List String) → Except TableError Unit
  | [] => .ok ()
  | (phase, edges) :: rest =>
    if phase = "" then .error .emptyPhase
    else
      match t.validateEdges phase [] edges with
      | .error err => .error err
      | .ok () => validateRows rest

/-- `Transitions.Validate`. -/
def validate : Except TableError Unit :=
  if t.items = [] then .error .empty else t.validateRows t.items

/-- `Transitions.IsTerminal`. -/
def isTerminal (phase : String) : Bool :=
  match t.outEdges phase with
  | none => true
  | some edges => edges.isEmpty

/-- `Transitions.IsValidTransition`. -/
def isValidTransition (source target : String) : Bool :=
  match t.outEdges source with
  | none => false
  | some edges => target ∈ edges

/-- `Transitions.TerminalPhases`. -/
def terminalPhases : List String :=
  ((t.items.filter fun row => row.2.isEmpty).map Prod.fst).insertionSort (· ≤ ·)

/-- `selectReachableTerminal`: the first terminal with an edge from the phase. -/
def reachableTerminal (source : String) : Option String :=
  (t.terminalPhases.filter fun terminal => terminal ∈ (t.outEdges source).getD []).head?

variable {t} {target : String}

theorem ne_empty_of_validateRows (h : t.validateRows rows = .ok ()) : ∀ row ∈ rows, row.1 ≠ "" := by
  induction rows with
  | nil => exact nofun
  | cons row rows ih =>
    obtain ⟨hphase, h⟩ := ok_of_check h
    split at h
    · cases h
    · exact forall_mem_cons.2 ⟨hphase, ih h⟩

/-- A declared phase of a valid table has a name. -/
theorem ne_empty_of_declared (hvalid : t.validate = .ok ()) (h : t.declared phase) :
    phase ≠ "" := by
  obtain ⟨-, hrows⟩ := ok_of_check hvalid
  obtain ⟨_, hedges⟩ := isSome_iff_exists.1 h
  obtain ⟨row, hrow, -⟩ := map_eq_some_iff.1 hedges
  obtain ⟨hmem, hkey⟩ := Window.mem_of_lookup hrow
  exact hkey ▸ ne_empty_of_validateRows hrows row hmem

theorem declared_of_validateEdges {seen : List String}
    (h : t.validateEdges phase seen edges = .ok ()) : ∀ target ∈ edges, t.declared target := by
  induction edges generalizing seen with
  | nil => exact nofun
  | cons target edges ih =>
    obtain ⟨-, h⟩ := ok_of_check h
    obtain ⟨-, h⟩ := ok_of_check h
    obtain ⟨hdeclared, h⟩ := ok_of_check h
    exact forall_mem_cons.2 ⟨by simpa using hdeclared, ih h⟩

theorem declared_of_validateRows (h : t.validateRows rows = .ok ()) :
    ∀ row ∈ rows, ∀ target ∈ row.2, t.declared target := by
  induction rows with
  | nil => exact nofun
  | cons row rows ih =>
    obtain ⟨-, h⟩ := ok_of_check h
    split at h
    · cases h
    · next hedges => exact forall_mem_cons.2 ⟨declared_of_validateEdges hedges, ih h⟩

/-- Both ends of an edge of a valid table are declared. -/
theorem declared_of_isValidTransition (hvalid : t.validate = .ok ())
    (h : t.isValidTransition source target) :
    t.declared source ∧ t.declared target := by
  obtain ⟨-, hrows⟩ := ok_of_check hvalid
  unfold isValidTransition at h
  cases hedges : t.outEdges source with
  | none =>
    rw [hedges] at h
    cases h
  | some edges =>
    rw [hedges] at h
    refine ⟨isSome_iff_exists.2 ⟨edges, hedges⟩, ?_⟩
    obtain ⟨row, hrow, rfl⟩ := map_eq_some_iff.1 hedges
    obtain ⟨hmem, -⟩ := Window.mem_of_lookup hrow
    exact declared_of_validateRows hrows row hmem target (of_decide_eq_true h)

/-- A terminal phase has no edge. -/
theorem not_terminal_of_isValidTransition (h : t.isValidTransition source target) :
    t.isTerminal source = false := by
  unfold isValidTransition at h
  unfold isTerminal
  split at h
  · cases h
  next edges _ =>
  cases edges with
  | nil => simp at h
  | cons => rfl

end Transitions

end SemStreams.Lifecycle
