import Eltanin.PartialExecution

/-!
# Refinement of executions

A system is built from parts, and each of its steps is some execution of each
part: no step at all, where it does not concern the part, or a few of them.
So is then every execution of the whole system, and whatever is known of the
executions of a part holds within the system.
-/

namespace PartialExecution

variable {σ α τ β : Type*}

/-- How the steps of the first system are executions of the second: what is
seen of a state, and which steps the second system takes. -/
structure Refinement (step : σ → α → Option σ) (step' : τ → β → Option τ)
    where
  image : σ → τ
  trace : σ → α → List β
  simulates : ∀ state action next, step state action = some next →
    execute step' (image state) (trace state action) = some (image next)

namespace Refinement

variable {step : σ → α → Option σ} {step' : τ → β → Option τ}
  (refinement : Refinement step step')

/-- The steps of the second system during an execution of the first. -/
def traces : σ → List α → List β
  | _, [] => []
  | state, action :: rest =>
      match step state action with
      | none => []
      | some next =>
          refinement.trace state action ++ traces next rest

theorem traces_cons {state next : σ} {action : α}
    (hstep : step state action = some next) (rest : List α) :
    refinement.traces state (action :: rest) =
      refinement.trace state action ++ refinement.traces next rest := by
  rw [traces, hstep]

theorem execute_traces {initial final : σ} {actions : List α}
    (hrun : execute step initial actions = some final) :
    execute step' (refinement.image initial)
        (refinement.traces initial actions) =
      some (refinement.image final) := by
  induction actions generalizing initial with
  | nil =>
      rw [execute_nil, Option.some.injEq] at hrun
      rw [hrun]
      rfl
  | cons action rest ih =>
      obtain ⟨next, hstep, hrest⟩ := execute_cons_eq_some_iff.mp hrun
      rw [refinement.traces_cons hstep]
      exact execute_append_eq_some_iff.mpr
        ⟨_, refinement.simulates _ _ _ hstep, ih hrest⟩

end Refinement

end PartialExecution
