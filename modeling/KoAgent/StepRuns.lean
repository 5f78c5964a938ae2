import Mathlib.Data.List.Basic

/-!
# Runs of a step function

A system is a function from a state and a step to the next state; everything a
step may choose is part of the step. `Along` restricts the steps of a run by a
condition on the state they are taken in, and the invariant rules say what one
step has to preserve for the whole run to preserve it.
-/

namespace KoAgent.StepRuns

set_option autoImplicit false

section Runs

variable {State Step : Type} (next : State → Step → State)

def run (start : State) (steps : List Step) : State := steps.foldl next start

/-- Every step of the run satisfies `allowed` in the state it is taken in. -/
def Along (allowed : State → Step → Prop) : State → List Step → Prop
  | _, [] => True
  | state, step :: rest => allowed state step ∧ Along allowed (next state step) rest

instance decidableAlong (allowed : State → Step → Prop)
    [∀ state step, Decidable (allowed state step)] :
    (start : State) → (steps : List Step) → Decidable (Along next allowed start steps)
  | _, [] => isTrue trivial
  | state, step :: rest =>
      have := decidableAlong allowed (next state step) rest
      inferInstanceAs (Decidable (allowed state step ∧ Along next allowed (next state step) rest))

@[simp] theorem run_nil (start : State) : run next start [] = start := rfl

@[simp] theorem run_cons (start : State) (step : Step) (rest : List Step) :
    run next start (step :: rest) = run next (next start step) rest := rfl

theorem run_append (start : State) (steps later : List Step) :
    run next start (steps ++ later) = run next (run next start steps) later := List.foldl_append

theorem along_append (allowed : State → Step → Prop) (start : State) (steps later : List Step) :
    Along next allowed start (steps ++ later) ↔
      Along next allowed start steps ∧ Along next allowed (run next start steps) later := by
  induction steps generalizing start with
  | nil => exact (iff_of_eq (true_and _)).symm
  | cons step rest induction =>
      rw [List.cons_append, Along, Along, induction, run_cons, and_assoc]

/-- A condition that does not look at the state only has to hold of each step. -/
theorem along_of_steps (allowed : Step → Prop) (start : State) (steps : List Step)
    (each : ∀ step ∈ steps, allowed step) : Along next (fun _ => allowed) start steps := by
  induction steps generalizing start with
  | nil => trivial
  | cons step rest induction =>
      exact ⟨each step List.mem_cons_self,
        induction _ fun later member => each later (List.mem_cons_of_mem _ member)⟩

theorem along_congr (left right : State → Step → Prop)
    (same : ∀ state step, left state step ↔ right state step) (start : State) (steps : List Step) :
    Along next left start steps ↔ Along next right start steps := by
  induction steps generalizing start with
  | nil => exact Iff.rfl
  | cons step rest induction => exact and_congr (same start step) (induction (next start step))

theorem along_and (left right : State → Step → Prop) (start : State) (steps : List Step) :
    Along next (fun state step => left state step ∧ right state step) start steps ↔
      Along next left start steps ∧ Along next right start steps := by
  induction steps generalizing start with
  | nil => exact (iff_of_eq (true_and _)).symm
  | cons step rest induction => rw [Along, induction, and_and_and_comm, ← Along, ← Along]

/-- Two conditions that agree wherever the invariant holds restrict a run alike. -/
theorem along_congr_invariant (left right : State → Step → Prop) (Invariant : State → Prop)
    (preserved : ∀ state step, Invariant state → Invariant (next state step))
    (same : ∀ state step, Invariant state → (left state step ↔ right state step))
    (start : State) (initial : Invariant start) (steps : List Step) :
    Along next left start steps ↔ Along next right start steps := by
  induction steps generalizing start with
  | nil => exact Iff.rfl
  | cons step rest induction =>
      exact and_congr (same start step initial)
        (induction (next start step) (preserved start step initial))

/-- An invariant that the allowed steps preserve holds after every allowed run. -/
theorem invariant_along (allowed : State → Step → Prop) (Invariant : State → Prop)
    (preserved : ∀ state step, allowed state step → Invariant state → Invariant (next state step))
    (start : State) (initial : Invariant start) (steps : List Step)
    (along : Along next allowed start steps) : Invariant (run next start steps) := by
  induction steps generalizing start with
  | nil => exact initial
  | cons step rest induction =>
      exact induction (next start step) (preserved start step along.1 initial) along.2

theorem invariant_run (Invariant : State → Prop)
    (preserved : ∀ state step, Invariant state → Invariant (next state step))
    (start : State) (initial : Invariant start) (steps : List Step) :
    Invariant (run next start steps) := by
  induction steps generalizing start with
  | nil => exact initial
  | cons step rest induction => exact induction (next start step) (preserved start step initial)

/-- Steps that leave the view of the state can be taken out of a run: the view at
its end is the same. -/
theorem run_without_quiet {View : Type} (view : State → View) (quiet : Step → Bool)
    (determined : ∀ left right step, view left = view right →
      view (next left step) = view (next right step))
    (start other : State) (same : view start = view other) (steps : List Step)
    (along : Along next (fun state step => quiet step = true → view (next state step) = view state)
      start steps) :
    view (run next start steps) = view (run next other (steps.filter fun step => !quiet step)) := by
  induction steps generalizing start other with
  | nil => exact same
  | cons step rest induction =>
      rw [run_cons]
      cases hidden : quiet step with
      | true =>
          rw [List.filter_cons_of_neg (by simp [hidden])]
          exact induction _ other ((along.1 hidden).trans same) along.2
      | false =>
          rw [List.filter_cons_of_pos (by simp [hidden]), run_cons]
          exact induction _ _ (determined start other step same) along.2

end Runs

section Simulations

variable {Fine FineStep State Step : Type} (fine : Fine → FineStep → Fine)
variable (next : State → Step → State) (view : Fine → State)

/-- Where every step of a system is a few steps of another one, seen through `view`,
so is every run. -/
theorem simulated_run (fineAllowed : Fine → FineStep → Prop) (allowed : State → Step → Prop)
    (simulated : ∀ state step, fineAllowed state step →
      ∃ steps, Along next allowed (view state) steps ∧
        run next (view state) steps = view (fine state step))
    (start : Fine) (steps : List FineStep) (along : Along fine fineAllowed start steps) :
    ∃ coarse, Along next allowed (view start) coarse ∧
      run next (view start) coarse = view (run fine start steps) := by
  induction steps generalizing start with
  | nil => exact ⟨[], trivial, rfl⟩
  | cons step rest induction =>
      rcases simulated start step along.1 with ⟨first, firstAlong, reached⟩
      rcases induction (fine start step) along.2 with ⟨second, secondAlong, final⟩
      refine ⟨first ++ second, ?_, ?_⟩
      · rw [along_append, reached]
        exact ⟨firstAlong, secondAlong⟩
      · rw [run_append, reached]
        exact final

end Simulations

end KoAgent.StepRuns
