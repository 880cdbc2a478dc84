import Eltanin.PartialExecution

/-!
# Executions with a rank

Some of the actions of a system are counted, and a rank says how many of them
can still come.  Where a counted action lowers the rank and no action raises
it, an execution has no more counted actions than the rank it starts with.
-/

namespace PartialExecution

variable {σ α : Type*}

/-- An action which is admitted keeps the invariant, and pays for itself with
the rank if it is counted. -/
def Pays (guard : σ → α → Prop) (step : σ → α → Option σ)
    (Invariant : σ → Prop) (counted : α → Bool) (rank : σ → ℕ) : Prop :=
  ∀ state action next, Invariant state → guard state action →
    step state action = some next →
      Invariant next ∧ rank next + (counted action).toNat ≤ rank state

theorem countP_add_rank_le {guard : σ → α → Prop} {step : σ → α → Option σ}
    {Invariant : σ → Prop} {counted : α → Bool} {rank : σ → ℕ}
    (hpays : Pays guard step Invariant counted rank) {initial final : σ}
    {actions : List α} (hinitial : Invariant initial)
    (hguarded : Guarded guard step initial actions)
    (hrun : execute step initial actions = some final) :
    actions.countP counted + rank final ≤ rank initial := by
  induction actions generalizing initial with
  | nil =>
      rw [execute_nil, Option.some.injEq] at hrun
      simp [hrun]
  | cons action rest ih =>
      obtain ⟨next, hstep, hrest⟩ := execute_cons_eq_some_iff.mp hrun
      obtain ⟨hnext, hpaid⟩ :=
        hpays initial action next hinitial hguarded.1 hstep
      have hlater := ih hnext (hguarded.2 next hstep) hrest
      rw [List.countP_cons]
      cases hcounted : counted action with
      | true =>
          rw [hcounted, Bool.toNat_true] at hpaid
          simp only [if_true]
          omega
      | false =>
          rw [hcounted, Bool.toNat_false] at hpaid
          simp only [Bool.false_eq_true, if_false]
          omega

end PartialExecution
