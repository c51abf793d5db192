import Mathlib.Data.Option.Basic
import Mathlib.Data.Nat.Notation
/-!
# Runs of a guarded step function

A component is a step function `σ → ε → Option σ`: the event says which
atomic step is taken and how the environment answers it, and `none` says
that the step is not enabled in that state. A run is a list of events,
each enabled where it is taken.

The rules below are the only inductions over runs in the development:
an invariant kept by one step is kept by a run, also when the step keeps
it only under a condition that every step of the run meets (`Along`).
-/

namespace SemStreams

open List Option

variable {σ ε : Type*}

/-- **The state a list of events leads to.** `none` when some event is not
enabled where it is taken. -/
def run (step : σ → ε → Option σ) (s : σ) : List ε → Option σ
  | [] => some s
  | e :: es => (step s e).bind fun s' => run step s' es

/-- Every step of the run from `s` meets `C`, a condition on the state
before the step and the event. -/
def Along (step : σ → ε → Option σ) (C : σ → ε → Prop) (s : σ) : List ε → Prop
  | [] => True
  | e :: es => C s e ∧ ∀ s', step s e = some s' → Along step C s' es

variable {step : σ → ε → Option σ} {s s' : σ} {e : ε} {es : List ε}

@[simp] theorem run_nil : run step s [] = some s := rfl

theorem run_cons : run step s (e :: es) = (step s e).bind fun t => run step t es := rfl

theorem run_cons_eq_some :
    run step s (e :: es) = some s' ↔ ∃ t, step s e = some t ∧ run step t es = some s' := by
  rw [run_cons, bind_eq_some_iff]

variable {C : σ → ε → Prop}

/-- A condition along a run, read off an enabled first step. -/
theorem along_cons (h : step s e = some s') :
    Along step C s (e :: es) ↔ C s e ∧ Along step C s' es := by
  constructor
  · rintro ⟨hC, hrest⟩
    exact ⟨hC, hrest s' h⟩
  · rintro ⟨hC, hrest⟩
    refine ⟨hC, fun t ht => ?_⟩
    rw [h, Option.some.injEq] at ht
    exact ht ▸ hrest

/-- A run is checked step by step. -/
instance decidableAlong {C : σ → ε → Prop} [∀ s e, Decidable (C s e)] :
    ∀ s es, Decidable (Along step C s es)
  | _, [] => isTrue trivial
  | s, e :: es =>
    match h : step s e with
    | none => decidable_of_iff (C s e) ⟨fun hC => ⟨hC, by simp [h]⟩, And.left⟩
    | some t =>
      have : Decidable (Along step C t es) := decidableAlong t es
      decidable_of_iff _ (along_cons h).symm

/-- What fixed events lead to is decided by running them. -/
instance decidableEnd {o : Option σ} {P : σ → Prop} [DecidablePred P] :
    Decidable (∃ s, o = some s ∧ P s) :=
  decidable_of_iff (o.any fun s => decide (P s)) (by simp [Option.any_eq_true])

/-- What follows from what evaluation shows of the end of a run. -/
theorem exists_end {o : Option σ} {P Q : σ → Prop} (h : ∃ s, o = some s ∧ P s)
    (hend : ∀ s, o = some s → P s → Q s) : ∃ s, o = some s ∧ Q s := by
  obtain ⟨s, hs, hP⟩ := h
  exact ⟨s, hs, hend s hs hP⟩

theorem along_of_forall_mem (h : ∀ s, ∀ e ∈ es, C s e) : Along step C s es := by
  induction es generalizing s with
  | nil => trivial
  | cons e es ih =>
    exact ⟨h s e mem_cons_self, fun _ _ => ih fun s e he => h s e (mem_cons_of_mem _ he)⟩

variable {I : σ → Prop}

theorem run_append : run step s (es ++ es') = (run step s es).bind fun t => run step t es' := by
  induction es generalizing s with
  | nil => rfl
  | cons e es ih =>
    rw [cons_append, run_cons, run_cons, bind_assoc]
    congr 1
    funext t
    exact ih

theorem run_append_of (h : run step s es = some s') (h' : run step s' es' = some s'') :
    run step s (es ++ es') = some s'' := by
  rw [run_append, h]
  exact h'

/-- **What one step keeps under a condition, a run keeps** whose every step meets it. -/
theorem run_invariant_along (hstep : ∀ s e s', I s → C s e → step s e = some s' → I s') (hs : I s)
    (hC : Along step C s es) (h : run step s es = some s') : I s' := by
  induction es generalizing s with
  | nil =>
    rw [run_nil, Option.some.injEq] at h
    exact h ▸ hs
  | cons e es ih =>
    obtain ⟨t, ht, hrun⟩ := run_cons_eq_some.1 h
    exact ih (hstep s e t hs hC.1 ht) (hC.2 t ht) hrun

/-- **What one step keeps, a run keeps.** -/
theorem run_invariant (hstep : ∀ s e s', I s → step s e = some s' → I s') (hs : I s)
    (h : run step s es = some s') : I s' :=
  run_invariant_along (C := fun _ _ => True) (fun s e s' hI _ => hstep s e s' hI) hs
    (along_of_forall_mem fun _ _ _ => trivial) h

/-- **What is not done makes progress.** Where an allowed step lowers a measure until `P` holds,
allowed steps lead to `P`. -/
theorem exists_run_of_measure {A : ε → Prop} {P : σ → Prop} (μ : σ → ℕ)
    (hstep : ∀ s, I s → P s ∨ ∃ e t, A e ∧ step s e = some t ∧ I t ∧ μ t < μ s) (hs : I s) :
    ∃ es s', (∀ e ∈ es, A e) ∧ run step s es = some s' ∧ I s' ∧ P s' := by
  induction hn : μ s using Nat.strongRecOn generalizing s with
  | _ n ih =>
    rcases hstep s hs with hdone | ⟨e, t, he, ht, hI, hlt⟩
    · exact ⟨[], s, nofun, rfl, hs, hdone⟩
    · obtain ⟨es, s', hes, hrun, hI', hP⟩ := ih (μ t) (hn ▸ hlt) hI rfl
      exact ⟨e :: es, s', forall_mem_cons.2 ⟨he, hes⟩, run_cons_eq_some.2 ⟨t, ht, hrun⟩, hI', hP⟩

/-- **A property of every state of a run, step by step.** Where the property
survives a step exactly under a condition, it holds in every state the run
passes exactly if every step meets the condition. -/
theorem always_iff_along {P : σ → Prop} (hI : ∀ s e s', I s → step s e = some s' → I s')
    (hP : ∀ s e s', I s → P s → step s e = some s' → (P s' ↔ C s e)) (hIs : I s) (hPs : P s)
    (h : run step s es = some s') :
    (∀ pre t, pre <+: es → run step s pre = some t → P t) ↔ Along step C s es := by
  induction es generalizing s with
  | nil =>
    refine ⟨fun _ => trivial, fun _ pre t hpre hrun => ?_⟩
    rw [prefix_nil.1 hpre, run_nil, Option.some.injEq] at hrun
    exact hrun ▸ hPs
  | cons e es ih =>
    obtain ⟨t₁, ht₁, hrun₁⟩ := run_cons_eq_some.1 h
    have hrest := ih (hI s e t₁ hIs ht₁)
    rw [along_cons ht₁]
    constructor
    · intro hall
      have hPt : P t₁ := hall [e] t₁ ⟨es, rfl⟩ (by rw [run_cons, ht₁]; rfl)
      refine ⟨(hP s e t₁ hIs hPs ht₁).1 hPt, (hrest hPt hrun₁).1 fun pre t hpre hrun => ?_⟩
      exact hall (e :: pre) t (cons_prefix_cons.2 ⟨rfl, hpre⟩) (by rw [run_cons, ht₁]; exact hrun)
    · rintro ⟨hC, halong⟩ pre t hpre hrun
      have hPt : P t₁ := (hP s e t₁ hIs hPs ht₁).2 hC
      cases pre with
      | nil =>
        rw [run_nil, Option.some.injEq] at hrun
        exact hrun ▸ hPs
      | cons e' pre =>
        obtain ⟨rfl, hrest'⟩ := cons_prefix_cons.1 hpre
        rw [run_cons, ht₁] at hrun
        exact (hrest hPt hrun₁).2 halong pre t hrest' hrun

end SemStreams
