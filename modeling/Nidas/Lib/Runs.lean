import Mathlib.Data.Option.Basic

/-!
# Runs of a machine that takes actions

A machine takes an action in a state, or the action is not enabled there.  `runSteps` takes a list of
actions, one after the other, and `Reaches` is the existence of such a list.  An invariant holds
in every state that is reached when it holds at the start and no step breaks it; the rule for
runs whose steps all meet a condition is the same rule for the restricted machine.
-/

namespace Nidas.Lib

variable {σ α : Type*}

/-- Take the actions one after the other. -/
def runSteps (step : σ → α → Option σ) : σ → List α → Option σ
  | state, [] => some state
  | state, action :: rest =>
      match step state action with
      | some next => runSteps step next rest
      | none => none

/-- Some actions lead from `start` to `state`. -/
def Reaches (step : σ → α → Option σ) (start state : σ) : Prop :=
  ∃ actions, runSteps step start actions = some state

/-- The machine that takes only the steps that meet a condition. -/
def restrict (allowed : σ → α → Bool) (step : σ → α → Option σ) (state : σ) (action : α) :
    Option σ :=
  if allowed state action then step state action else none

variable {step : σ → α → Option σ} {start state : σ}

theorem runSteps_cons {action : α} {next : σ} (hstep : step state action = some next)
    (rest : List α) : runSteps step state (action :: rest) = runSteps step next rest := by
  rw [runSteps, hstep]

/-- A run in two parts. -/
theorem runSteps_append (first rest : List α) :
    runSteps step start (first ++ rest) =
      (runSteps step start first).bind fun state => runSteps step state rest := by
  induction first generalizing start with
  | nil => rfl
  | cons action first ih =>
      rw [List.cons_append, runSteps, runSteps]
      split
      · exact ih
      · rfl

theorem Reaches.refl : Reaches step start start := ⟨[], rfl⟩

/-- A run can be evaluated to find out what it reaches. -/
theorem exists_reaches_of_any {actions : List α} {check : σ → Bool}
    (h : ((runSteps step start actions).any check) = true) :
    ∃ state, Reaches step start state ∧ check state = true := by
  obtain ⟨state, hrun, hcheck⟩ := (Option.any_eq_true _ _).mp h
  exact ⟨state, ⟨actions, hrun⟩, hcheck⟩

theorem restrict_eq_some {allowed : σ → α → Bool} {action : α} {next : σ} :
    restrict allowed step state action = some next ↔
      allowed state action = true ∧ step state action = some next := by
  unfold restrict
  split
  · next hallowed => simp [hallowed]
  · next hallowed => simp [hallowed]

/-- **The rule of invariants.** -/
theorem Reaches.invariant {Inv : σ → Prop} (hreach : Reaches step start state)
    (hstart : Inv start)
    (hkeep : ∀ (before : σ) (action : α) (after : σ),
      Inv before → step before action = some after → Inv after) : Inv state := by
  obtain ⟨actions, hrun⟩ := hreach
  induction actions generalizing start with
  | nil =>
      cases hrun
      exact hstart
  | cons action rest ih =>
      rw [runSteps] at hrun
      split at hrun
      · next next hstep => exact ih (hkeep start action next hstart hstep) hrun
      · cases hrun

/-- An invariant that the actions of a run keep. -/
theorem runSteps_invariant {Inv : σ → Prop} {actions : List α}
    (hrun : runSteps step start actions = some state) (hstart : Inv start)
    (hkeep : ∀ (before : σ) (action : α) (after : σ), action ∈ actions →
      Inv before → step before action = some after → Inv after) : Inv state := by
  induction actions generalizing start with
  | nil =>
      cases hrun
      exact hstart
  | cons action rest ih =>
      obtain ⟨hfirst, hrest⟩ : (∀ before after, Inv before → step before action = some after →
          Inv after) ∧ ∀ before other after, other ∈ rest → Inv before →
            step before other = some after → Inv after :=
        ⟨fun before after => hkeep before action after List.mem_cons_self,
          fun before other after hmem => hkeep before other after (List.mem_cons_of_mem _ hmem)⟩
      rw [runSteps] at hrun
      split at hrun
      · next next hstep => exact ih hrun (hfirst start next hstart hstep) hrest
      · cases hrun

/-- A run of the restricted machine is a run. -/
theorem Reaches.of_restrict {allowed : σ → α → Bool}
    (hreach : Reaches (restrict allowed step) start state) : Reaches step start state := by
  obtain ⟨actions, hrun⟩ := hreach
  refine ⟨actions, ?_⟩
  induction actions generalizing start with
  | nil => exact hrun
  | cons action rest ih =>
      rw [runSteps] at hrun
      split at hrun
      · next next hstep =>
          rw [runSteps_cons (restrict_eq_some.mp hstep).2]
          exact ih hrun
      · cases hrun

end Nidas.Lib
