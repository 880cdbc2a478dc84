import Mathlib.Data.List.Basic

/-!
# Executions of a partial step function

A system is given by a step function `step : σ → α → Option σ`.  The action
carries everything the environment chooses: which party moves, what a clock
shows, what a foreign component answers.  `none` means that the action is not
enabled.  An execution is then just a list of actions, and every statement
about all interleavings is a statement about all such lists.
-/

namespace PartialExecution

variable {σ α : Type*}

/-- Perform the actions from left to right, failing at the first one which is
not enabled. -/
def execute (step : σ → α → Option σ) : σ → List α → Option σ
  | state, [] => some state
  | state, action :: rest =>
      match step state action with
      | none => none
      | some next => execute step next rest

def Reachable (step : σ → α → Option σ) (initial state : σ) : Prop :=
  ∃ actions, execute step initial actions = some state

/-- Every action of the execution is performed in a state which the guard
admits for it. -/
def Guarded (guard : σ → α → Prop) (step : σ → α → Option σ) :
    σ → List α → Prop
  | _, [] => True
  | state, action :: rest =>
      guard state action ∧
        ∀ next, step state action = some next → Guarded guard step next rest

@[simp] theorem execute_nil (step : σ → α → Option σ) (state : σ) :
    execute step state [] = some state := rfl

theorem execute_cons_eq_some_iff
    {step : σ → α → Option σ} {state final : σ} {action : α}
    {rest : List α} :
    execute step state (action :: rest) = some final ↔
      ∃ next, step state action = some next ∧
        execute step next rest = some final := by
  cases hstep : step state action with
  | none => simp [execute, hstep]
  | some next => simp [execute, hstep]

theorem execute_append_eq_some_iff
    {step : σ → α → Option σ} {state final : σ}
    {before after : List α} :
    execute step state (before ++ after) = some final ↔
      ∃ middle, execute step state before = some middle ∧
        execute step middle after = some final := by
  induction before generalizing state with
  | nil => simp
  | cons action rest ih =>
      rw [List.cons_append, execute_cons_eq_some_iff]
      constructor
      · rintro ⟨next, hstep, hrest⟩
        obtain ⟨middle, hmiddle, hafter⟩ := ih.mp hrest
        exact ⟨middle,
          execute_cons_eq_some_iff.mpr ⟨next, hstep, hmiddle⟩, hafter⟩
      · rintro ⟨middle, hmiddle, hafter⟩
        obtain ⟨next, hstep, hrest⟩ :=
          execute_cons_eq_some_iff.mp hmiddle
        exact ⟨next, hstep, ih.mpr ⟨middle, hrest, hafter⟩⟩

theorem Reachable.refl (step : σ → α → Option σ) (state : σ) :
    Reachable step state state := ⟨[], rfl⟩

theorem Reachable.trans
    {step : σ → α → Option σ} {first second third : σ}
    (hfirst : Reachable step first second)
    (hsecond : Reachable step second third) :
    Reachable step first third := by
  rcases hfirst with ⟨before, hbefore⟩
  rcases hsecond with ⟨after, hafter⟩
  exact ⟨before ++ after,
    execute_append_eq_some_iff.mpr ⟨second, hbefore, hafter⟩⟩

theorem Reachable.single
    {step : σ → α → Option σ} {state next : σ} {action : α}
    (hstep : step state action = some next) :
    Reachable step state next :=
  ⟨[action], execute_cons_eq_some_iff.mpr ⟨next, hstep, rfl⟩⟩

/-- The induction rule for guarded executions: a property which holds at the
start and is preserved by every admitted step holds at the end. -/
theorem execute_guarded_invariant
    {step : σ → α → Option σ} (guard : σ → α → Prop)
    (Invariant : σ → Prop)
    (hpreserved : ∀ state action next, Invariant state →
      guard state action → step state action = some next → Invariant next)
    {initial final : σ} {actions : List α}
    (hinitial : Invariant initial)
    (hguarded : Guarded guard step initial actions)
    (hrun : execute step initial actions = some final) :
    Invariant final := by
  induction actions generalizing initial with
  | nil =>
      rw [execute_nil, Option.some.injEq] at hrun
      exact hrun ▸ hinitial
  | cons action rest ih =>
      obtain ⟨next, hstep, hrest⟩ := execute_cons_eq_some_iff.mp hrun
      have hnext : Invariant next :=
        hpreserved initial action next hinitial hguarded.1 hstep
      exact ih hnext (hguarded.2 next hstep) hrest

/-- The same rule, where the step is taken from a reachable state. -/
theorem execute_guarded_invariant_of_reachable
    {step : σ → α → Option σ} (guard : σ → α → Prop)
    (Invariant : σ → Prop) {initial final : σ} {actions : List α}
    (hpreserved : ∀ state action next, Reachable step initial state →
      Invariant state → guard state action →
      step state action = some next → Invariant next)
    (hinitial : Invariant initial)
    (hguarded : Guarded guard step initial actions)
    (hrun : execute step initial actions = some final) :
    Invariant final := by
  have hpaired : Reachable step initial final ∧ Invariant final := by
    refine execute_guarded_invariant guard
      (fun state => Reachable step initial state ∧ Invariant state)
      ?_ ⟨Reachable.refl step initial, hinitial⟩ hguarded hrun
    intro state action next hstate hguard hstep
    constructor
    · exact hstate.1.trans (Reachable.single hstep)
    · exact hpreserved state action next hstate.1 hstate.2 hguard hstep
  exact hpaired.2

/-- The same rule, where the step lies on the way to the final state. -/
theorem execute_invariant_of_between
    {step : σ → α → Option σ} (Invariant : σ → Prop)
    {initial final : σ} {actions : List α}
    (hpreserved : ∀ state action next, Reachable step initial state →
      Invariant state → step state action = some next →
      Reachable step next final → Invariant next)
    (hinitial : Invariant initial)
    (hrun : execute step initial actions = some final) :
    Invariant final := by
  have hremaining : ∀ rest state, Reachable step initial state →
      Invariant state → execute step state rest = some final →
      Invariant final := by
    intro rest
    induction rest with
    | nil =>
        intro state _ hstate hrest
        rw [execute_nil, Option.some.injEq] at hrest
        exact hrest ▸ hstate
    | cons action rest ih =>
        intro state hreachable hstate hrest
        obtain ⟨next, hstep, hlater⟩ := execute_cons_eq_some_iff.mp hrest
        have hnext : Invariant next :=
          hpreserved state action next hreachable hstate hstep ⟨rest, hlater⟩
        exact ih next (hreachable.trans (Reachable.single hstep)) hnext hlater
  exact hremaining actions initial (Reachable.refl step initial) hinitial hrun

theorem guarded_of_forall
    {step : σ → α → Option σ} {guard : σ → α → Prop}
    {initial : σ} {actions : List α}
    (hguard : ∀ action ∈ actions, ∀ state, guard state action) :
    Guarded guard step initial actions := by
  induction actions generalizing initial with
  | nil => trivial
  | cons action rest ih =>
      refine ⟨hguard action List.mem_cons_self initial, ?_⟩
      intro next _
      exact ih fun other hmem =>
        hguard other (List.mem_cons_of_mem action hmem)

theorem Guarded.append
    {step : σ → α → Option σ} {guard : σ → α → Prop} {initial : σ}
    {before after : List α} (hbefore : Guarded guard step initial before)
    (hafter : ∀ middle, execute step initial before = some middle →
      Guarded guard step middle after) :
    Guarded guard step initial (before ++ after) := by
  induction before generalizing initial with
  | nil => exact hafter initial rfl
  | cons action rest ih =>
      refine ⟨hbefore.1, ?_⟩
      intro next hstep
      apply ih (hbefore.2 next hstep)
      intro middle hrest
      exact hafter middle
        (execute_cons_eq_some_iff.mpr ⟨next, hstep, hrest⟩)

/-- Where an action stands in a guarded execution, what is before it is
guarded and the guard admits it. -/
theorem Guarded.split
    {step : σ → α → Option σ} {guard : σ → α → Prop} {initial state : σ}
    {before after : List α} {action : α}
    (hguarded : Guarded guard step initial (before ++ action :: after))
    (hbefore : execute step initial before = some state) :
    Guarded guard step initial before ∧ guard state action := by
  induction before generalizing initial with
  | nil =>
      rw [execute_nil, Option.some.injEq] at hbefore
      exact ⟨trivial, hbefore ▸ hguarded.1⟩
  | cons first rest ih =>
      obtain ⟨next, hstep, hrest⟩ := execute_cons_eq_some_iff.mp hbefore
      obtain ⟨_, hadmits⟩ := ih (hguarded.2 next hstep) hrest
      refine ⟨⟨hguarded.1, ?_⟩, hadmits⟩
      intro other hother
      rw [hstep, Option.some.injEq] at hother
      exact hother ▸ (ih (hguarded.2 next hstep) hrest).1

/-- Guards which can be checked in a state can be checked along a list. -/
instance Guarded.decidable
    {step : σ → α → Option σ} {guard : σ → α → Prop}
    [hguard : ∀ state action, Decidable (guard state action)] :
    ∀ (initial : σ) (actions : List α),
      Decidable (Guarded guard step initial actions)
  | _, [] => .isTrue trivial
  | initial, action :: rest =>
      match hstep : step initial action with
      | none =>
          decidable_of_iff (guard initial action) (by
            simp [Guarded, hstep])
      | some next =>
          have : Decidable (Guarded guard step next rest) :=
            Guarded.decidable next rest
          decidable_of_iff
            (guard initial action ∧ Guarded guard step next rest) (by
              simp [Guarded, hstep])

/-- A property which an execution establishes is established by one of its
actions. -/
theorem exists_establishing_step
    {step : σ → α → Option σ} (Holds : σ → Prop)
    {initial final : σ} {actions : List α}
    (hinitial : ¬Holds initial) (hfinal : Holds final)
    (hrun : execute step initial actions = some final) :
    ∃ before action after state next,
      actions = before ++ action :: after ∧
        execute step initial before = some state ∧
        step state action = some next ∧
        execute step next after = some final ∧
        ¬Holds state ∧ Holds next := by
  induction actions generalizing initial with
  | nil =>
      have heq : initial = final := Option.some.inj hrun
      subst heq
      exact (hinitial hfinal).elim
  | cons action rest ih =>
      obtain ⟨next, hstep, hrest⟩ := execute_cons_eq_some_iff.mp hrun
      by_cases hnext : Holds next
      · exact ⟨[], action, rest, initial, next, rfl, rfl, hstep, hrest,
          hinitial, hnext⟩
      · obtain ⟨before, establishing, after, state, reached, hsplit, hbefore,
          hestablishing, hafter, hnot, hholds⟩ := ih hnext hrest
        refine ⟨action :: before, establishing, after, state, reached, ?_,
          ?_, hestablishing, hafter, hnot, hholds⟩
        · rw [hsplit, List.cons_append]
        · exact execute_cons_eq_some_iff.mpr ⟨next, hstep, hbefore⟩

end PartialExecution
