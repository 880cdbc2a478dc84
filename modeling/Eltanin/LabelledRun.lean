import Mathlib.Data.List.Induction

/-!
# Runs of a labelled transition relation

A specification automaton is a relation `next state event reached`.  A run
reads a list of events, so that the lists which have a run from the first
state are the ones which the specification allows.
-/

namespace LabelledRun

variable {σ η : Type*}

inductive Run (next : σ → η → σ → Prop) : σ → List η → σ → Prop
  | nil (state : σ) : Run next state [] state
  | cons {state middle final : σ} {event : η} {rest : List η}
      (hstep : next state event middle) (hrest : Run next middle rest final) :
      Run next state (event :: rest) final

variable {next : σ → η → σ → Prop} {initial state middle final : σ}
  {event : η} {events before after : List η}

theorem Run.single (hstep : next state event final) :
    Run next state [event] final := .cons hstep (.nil final)

theorem run_nil_iff : Run next state [] final ↔ state = final := by
  constructor
  · intro hrun
    cases hrun
    rfl
  · intro heq
    exact heq ▸ .nil state

theorem run_cons_iff :
    Run next state (event :: after) final ↔
      ∃ middle, next state event middle ∧ Run next middle after final := by
  constructor
  · intro hrun
    cases hrun with
    | cons hstep hrest => exact ⟨_, hstep, hrest⟩
  · rintro ⟨middle, hstep, hrest⟩
    exact .cons hstep hrest

theorem run_append_iff :
    Run next state (before ++ after) final ↔
      ∃ middle, Run next state before middle ∧ Run next middle after final := by
  induction before generalizing state with
  | nil => simp [run_nil_iff]
  | cons event rest ih =>
      rw [List.cons_append, run_cons_iff]
      constructor
      · rintro ⟨reached, hstep, hrun⟩
        obtain ⟨middle, hrest, hafter⟩ := ih.mp hrun
        exact ⟨middle, .cons hstep hrest, hafter⟩
      · rintro ⟨middle, hrun, hafter⟩
        obtain ⟨reached, hstep, hrest⟩ := run_cons_iff.mp hrun
        exact ⟨reached, hstep, ih.mpr ⟨middle, hrest, hafter⟩⟩

theorem Run.append (hbefore : Run next state before middle)
    (hafter : Run next middle after final) :
    Run next state (before ++ after) final :=
  run_append_iff.mpr ⟨middle, hbefore, hafter⟩

theorem Run.split (hrun : Run next initial (before ++ event :: after) final) :
    ∃ state reached, Run next initial before state ∧
      next state event reached ∧ Run next reached after final := by
  obtain ⟨state, hbefore, hrest⟩ := run_append_iff.mp hrun
  obtain ⟨reached, hstep, hafter⟩ := run_cons_iff.mp hrest
  exact ⟨state, reached, hbefore, hstep, hafter⟩

/-- The induction rule for a relation between the events so far and the state
which they lead to. -/
theorem Run.history {Holds : List η → σ → Prop} (hinitial : Holds [] initial)
    (hpreserved : ∀ before state event reached, Holds before state →
      next state event reached → Holds (before ++ [event]) reached)
    (hrun : Run next initial events final) : Holds events final := by
  induction events using List.reverseRecOn generalizing final with
  | nil => exact run_nil_iff.mp hrun ▸ hinitial
  | append_singleton before event ih =>
      obtain ⟨state, hbefore, hlast⟩ := run_append_iff.mp hrun
      obtain ⟨reached, hstep, hnil⟩ := run_cons_iff.mp hlast
      rw [run_nil_iff] at hnil
      exact hnil ▸ hpreserved before state event reached (ih hbefore) hstep

end LabelledRun
