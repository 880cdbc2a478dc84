import Eltanin.CallOutcomes
import Eltanin.FakeBackendModel

/-!
# The handler over a fake backend

The handler's calls and the backend's users share the backend, each operation
under the lock it takes.  An enforcement is two operations, the observation of
the resource and the look at the script, and anything may happen in between;
removing a resource is two operations as well.  A release asks the backend
inside its locked section, about the resource it is tearing down.
-/

namespace Eltanin.Agent

open Eltanin.Core Backend Protocol InterleavedSessions PartialExecution
  AuthorizationHandler

/-- `observations` remembers, for each call, what its enforcement has observed
of the requested resource. -/
structure Composition where
  agent : AgentState
  backend : FakeBackend
  observations : ℕ → Option (Except BackendError ProtectedResource)

inductive CompositionAction where
  | handle (action : AgentAction)
  | observe (call : ℕ)
  | enforce (call : ℕ)
  | release (call : ℕ) (now : MonotonicTime)
  | insert (resource : ProtectedResource)
  | removeResource (identity : ResourceIdentity)
  | removeScript (identity : ResourceIdentity)
  | scriptEnforcement (identity : ResourceIdentity)
      (result : EnforcementResult)
  | revoke (resource : ResourceIdentity)

/-- The operations of those who arrange the backend from outside. -/
def CompositionAction.isForeign : CompositionAction → Bool
  | .insert _ => true
  | .removeResource _ => true
  | .removeScript _ => true
  | .scriptEnforcement _ _ => true
  | .revoke _ => true
  | _ => false

/-- The actions of a call which wait for the backend's answer. -/
def AsksBackend : AgentAction → Bool
  | .act _ (.enforce _) => true
  | .act _ (.release _ _) => true
  | _ => false

/-- The resource which a release of this call would tear down now. -/
def teardownTarget (state : LeaseState) (call : Call) (now : MonotonicTime) :
    Option ResourceIdentity :=
  match call.peer.authorizable, call.request with
  | some observed, .releaseLease request =>
      (handleReleaseLease state request observed now .panicked).tornDown
  | _, _ => none

namespace Composition

def withBackend (self : Composition) (backend : FakeBackend) :
    Composition :=
  { self with backend := backend }

/-- The observation of call `i`, made while it holds an issued lease. -/
def observe (self : Composition) (i : ℕ) : Option Composition :=
  match self.agent.sessions[i]?, self.observations i with
  | some call, none =>
      match call.phase with
      | .issued lease =>
          let observed :=
            self.backend.observe lease.origin.request.resource
          some { self with
            observations :=
              Function.update self.observations i (some observed) }
      | _ => none
  | _, _ => none

def enforce (self : Composition) (handler : AuthorizationHandler) (i : ℕ) :
    Option Composition :=
  match self.agent.sessions[i]?, self.observations i with
  | some call, some observed =>
      match call.phase with
      | .issued lease =>
          let reply := self.backend.enforceObserved lease.origin.request
            observed
          match handler.step self.agent
              (.act i (.enforce (.returned reply))) with
          | some agent => some { self with agent := agent }
          | none => none
      | _ => none
  | _, _ => none

/-- Where nothing is torn down the backend is not asked, and the reply passed
on is not looked at. -/
def release (self : Composition) (handler : AuthorizationHandler) (i : ℕ)
    (now : MonotonicTime) : Option Composition :=
  match self.agent.sessions[i]? with
  | none => none
  | some call =>
      let asked : FakeBackend × Completion BackendReply :=
        match teardownTarget self.agent.shared call now with
        | some resource => self.backend.revoke resource
        | none => (self.backend, .panicked)
      match handler.step self.agent (.act i (.release now asked.2)) with
      | some agent => some { self with agent := agent, backend := asked.1 }
      | none => none

end Composition

namespace AuthorizationHandler

def compositionStep (self : AuthorizationHandler) (host : Composition) :
    CompositionAction → Option Composition
  | .handle action =>
      if AsksBackend action = true then none
      else
        match self.step host.agent action with
        | some agent => some { host with agent := agent }
        | none => none
  | .observe i => host.observe i
  | .enforce i => host.enforce self i
  | .release i now => host.release self i now
  | .insert resource => some (host.withBackend (host.backend.insert resource))
  | .removeResource identity =>
      some (host.withBackend (host.backend.removeResource identity))
  | .removeScript identity =>
      some (host.withBackend (host.backend.removeScript identity))
  | .scriptEnforcement identity result =>
      some (host.withBackend (host.backend.scriptEnforcement identity result))
  | .revoke resource =>
      some (host.withBackend (host.backend.revoke resource).1)

/-- A new handler over this backend. -/
def composed (self : AuthorizationHandler) (backend : FakeBackend) :
    Composition :=
  ⟨self.initial, backend, fun _ => none⟩

def ComposedRuns (self : AuthorizationHandler) (backend : FakeBackend)
    (actions : List CompositionAction) (host : Composition) : Prop :=
  execute self.compositionStep (self.composed backend) actions = some host

theorem execute_remove (self : AuthorizationHandler) (host : Composition)
    (identity : ResourceIdentity) :
    execute self.compositionStep host
        [.removeResource identity, .removeScript identity] =
      some (host.withBackend (host.backend.remove identity)) := rfl

end AuthorizationHandler

/-! ## What one action of the composition does -/

/-- The agent's part of a composed action, and what it leaves of the rest. -/
inductive Composition.Moves (handler : AuthorizationHandler)
    (host next : Composition) : CompositionAction → Prop
  | handled {action : AgentAction}
      (hplain : AsksBackend action = false)
      (hagent : handler.step host.agent action = some next.agent)
      (hbackend : next.backend = host.backend)
      (hobservations : next.observations = host.observations) :
      Moves handler host next (.handle action)
  | observed {i : ℕ} {call : Call} {lease : ComputeLease}
      (hcall : host.agent.sessions[i]? = some call)
      (hissued : call.phase = .issued lease)
      (hnone : host.observations i = none)
      (hagent : next.agent = host.agent)
      (hbackend : next.backend = host.backend)
      (hobservations : next.observations =
        Function.update host.observations i
          (some (host.backend.observe lease.origin.request.resource))) :
      Moves handler host next (.observe i)
  | enforced {i : ℕ} {call : Call} {lease : ComputeLease}
      {observed : Except BackendError ProtectedResource}
      (hcall : host.agent.sessions[i]? = some call)
      (hissued : call.phase = .issued lease)
      (hobserved : host.observations i = some observed)
      (hagent : handler.step host.agent (.act i (.enforce (.returned
        (host.backend.enforceObserved lease.origin.request observed)))) =
          some next.agent)
      (hbackend : next.backend = host.backend)
      (hobservations : next.observations = host.observations) :
      Moves handler host next (.enforce i)
  | released {i : ℕ} {now : MonotonicTime}
      {reply : Completion BackendReply}
      (hagent : handler.step host.agent (.act i (.release now reply)) =
        some next.agent)
      (hbackend : next.backend = host.backend ∨
        ∃ resource, next.backend = (host.backend.revoke resource).1)
      (hobservations : next.observations = host.observations) :
      Moves handler host next (.release i now)
  | arranged {action : CompositionAction}
      (hforeign : action.isForeign = true)
      (hagent : next.agent = host.agent)
      (hobservations : next.observations = host.observations) :
      Moves handler host next action

section Moves

variable {handler : AuthorizationHandler} {host next : Composition}

theorem Composition.moves_of_observe {i : ℕ}
    (hobserve : host.observe i = some next) :
    Moves handler host next (.observe i) := by
  unfold observe at hobserve
  split at hobserve
  next call hcall hnone =>
    split at hobserve
    next lease hissued =>
      cases hobserve
      exact .observed hcall hissued hnone rfl rfl rfl
    · contradiction
  · contradiction

theorem Composition.moves_of_enforce {i : ℕ}
    (henforce : host.enforce handler i = some next) :
    Moves handler host next (.enforce i) := by
  unfold enforce at henforce
  split at henforce
  next call observed hcall hobserved =>
    split at henforce
    next lease hissued =>
      simp only at henforce
      split at henforce
      next agent hagent =>
        cases henforce
        exact .enforced hcall hissued hobserved hagent rfl rfl
      · contradiction
    · contradiction
  · contradiction

theorem Composition.moves_of_release {i : ℕ} {now : MonotonicTime}
    (hrelease : host.release handler i now = some next) :
    Moves handler host next (.release i now) := by
  unfold release at hrelease
  split at hrelease
  · contradiction
  next call hcall =>
    simp only at hrelease
    split at hrelease
    next agent hagent =>
      cases hrelease
      refine .released hagent ?_ rfl
      cases htarget : teardownTarget host.agent.shared call now with
      | none => exact .inl rfl
      | some resource => exact .inr ⟨resource, rfl⟩
    · contradiction

theorem Composition.moves_of_step {action : CompositionAction}
    (hstep : handler.compositionStep host action = some next) :
    Moves handler host next action := by
  cases action with
  | handle action =>
      simp only [compositionStep] at hstep
      split at hstep
      · contradiction
      next hplain =>
        split at hstep
        next agent hagent =>
          cases hstep
          exact .handled (Bool.not_eq_true _ ▸ hplain) hagent rfl rfl
        · contradiction
  | observe i => exact moves_of_observe hstep
  | enforce i => exact moves_of_enforce hstep
  | release i now => exact moves_of_release hstep
  | insert resource =>
      cases hstep
      exact .arranged rfl rfl rfl
  | removeResource identity =>
      cases hstep
      exact .arranged rfl rfl rfl
  | removeScript identity =>
      cases hstep
      exact .arranged rfl rfl rfl
  | scriptEnforcement identity result =>
      cases hstep
      exact .arranged rfl rfl rfl
  | revoke resource =>
      cases hstep
      exact .arranged rfl rfl rfl

end Moves

/-! ## The handler's part of a composed run -/

section Runs

variable {handler : AuthorizationHandler} {backend : FakeBackend}
  {host next final : Composition} {actions : List CompositionAction}

/-- The rule for composed runs: an invariant is preserved by whatever one
action does. -/
theorem Composition.run_invariant (Invariant : Composition → Prop)
    (hpreserved : ∀ host next action, Invariant host →
      Moves handler host next action → Invariant next)
    (hinitial : Invariant host)
    (hrun : execute handler.compositionStep host actions = some final) :
    Invariant final :=
  execute_guarded_invariant (fun _ _ => True) Invariant
    (fun state action next hstate _ hstep =>
      hpreserved state next action hstate (moves_of_step hstep))
    hinitial (guarded_of_forall fun _ _ _ => trivial) hrun

/-- The agent moves as the handler does, or rests. -/
theorem Composition.Moves.agent_cases {action : CompositionAction}
    (hmoves : Moves handler host next action) :
    next.agent = host.agent ∨
      ∃ agentAction,
        handler.step host.agent agentAction = some next.agent := by
  cases hmoves with
  | handled hplain hagent hbackend hobservations =>
      exact .inr ⟨_, hagent⟩
  | observed hcall hissued hnone hagent hbackend hobservations =>
      exact .inl hagent
  | enforced hcall hissued hobserved hagent hbackend hobservations =>
      exact .inr ⟨_, hagent⟩
  | released hagent hbackend hobservations => exact .inr ⟨_, hagent⟩
  | arranged hforeign hagent hobservations => exact .inl hagent

theorem AuthorizationHandler.ComposedRuns.exists_runs
    (hruns : handler.ComposedRuns backend actions host) :
    ∃ agentActions, handler.Runs agentActions host.agent := by
  refine Composition.run_invariant
    (fun host => Reachable handler.step handler.initial host.agent)
    ?_ (Reachable.refl _ _) hruns
  intro host next action hreachable hmoves
  rcases hmoves.agent_cases with hsame | ⟨agentAction, hstep⟩
  · rw [hsame]
    exact hreachable
  · exact hreachable.trans (Reachable.single hstep)

theorem Composition.mem_transcript_of_execute {event : ℕ × Happening}
    (hmem : event ∈ host.agent.transcript)
    (hrun : execute handler.compositionStep host actions = some final) :
    event ∈ final.agent.transcript := by
  refine run_invariant (fun host => event ∈ host.agent.transcript) ?_ hmem
    hrun
  intro host next action hevent hmoves
  rcases hmoves.agent_cases with hsame | ⟨agentAction, hstep⟩
  · rw [hsame]
    exact hevent
  · exact mem_transcript_of_step hstep hevent

/-! ## Observations stay -/

theorem Composition.Moves.observation_kept {action : CompositionAction}
    {i : ℕ} {observed : Except BackendError ProtectedResource}
    (hmoves : Moves handler host next action)
    (hobserved : host.observations i = some observed) :
    next.observations i = some observed := by
  cases hmoves with
  | handled hplain hagent hbackend hobservations =>
      rw [hobservations, hobserved]
  | @observed j call lease hcall hissued hnone hagent hbackend
      hobservations =>
      have hne : i ≠ j := by
        intro heq
        rw [heq, hnone] at hobserved
        contradiction
      rw [hobservations, Function.update_of_ne hne, hobserved]
  | enforced hcall hissued hother hagent hbackend hobservations =>
      rw [hobservations, hobserved]
  | released hagent hbackend hobservations =>
      rw [hobservations, hobserved]
  | arranged hforeign hagent hobservations =>
      rw [hobservations, hobserved]

theorem Composition.observation_kept_of_execute {i : ℕ}
    {observed : Except BackendError ProtectedResource}
    (hobserved : host.observations i = some observed)
    (hrun : execute handler.compositionStep host actions = some final) :
    final.observations i = some observed :=
  run_invariant (fun host => host.observations i = some observed)
    (fun _ _ _ hkept hmoves => hmoves.observation_kept hkept) hobserved hrun

theorem Composition.Moves.exists_observation {i : ℕ}
    (hmoves : Moves handler host next (.observe i)) :
    ∃ call lease, host.agent.sessions[i]? = some call ∧
      call.phase = .issued lease ∧ host.observations i = none ∧
      next.agent = host.agent ∧
      next.observations i =
        some (host.backend.observe lease.origin.request.resource) := by
  cases hmoves with
  | observed hcall hissued hnone hagent hbackend hobservations =>
      refine ⟨_, _, hcall, hissued, hnone, hagent, ?_⟩
      rw [hobservations, Function.update_self]
  | arranged hforeign => contradiction

/-- An observation is made where there was none, and stays. -/
theorem Composition.exists_observation_of_mem {i : ℕ}
    (hmem : .observe i ∈ actions)
    (hrun : execute handler.compositionStep host actions = some final) :
    host.observations i = none ∧
      ∃ observed, final.observations i = some observed := by
  obtain ⟨before, after, hsplit⟩ := List.append_of_mem hmem
  rw [hsplit, execute_append_eq_some_iff] at hrun
  obtain ⟨middle, hbefore, hrest⟩ := hrun
  obtain ⟨later, hstep, hafter⟩ := execute_cons_eq_some_iff.mp hrest
  obtain ⟨_, _, _, _, hnone, _, hlater⟩ :=
    (moves_of_step hstep).exists_observation
  constructor
  · cases hobserved : host.observations i with
    | none => rfl
    | some observed =>
        rw [observation_kept_of_execute hobserved hbefore] at hnone
        contradiction
  · exact ⟨_, observation_kept_of_execute hlater hafter⟩

/-- A call observes at most once. -/
theorem Composition.not_observe_mem {i : ℕ}
    {observed : Except BackendError ProtectedResource}
    (hobserved : host.observations i = some observed)
    (hrun : execute handler.compositionStep host actions = some final) :
    .observe i ∉ actions := by
  intro hmem
  obtain ⟨hnone, -⟩ := exists_observation_of_mem hmem hrun
  rw [hobserved] at hnone
  contradiction

theorem Composition.not_observe_mem_of_unobserved {i : ℕ}
    (hnone : final.observations i = none)
    (hrun : execute handler.compositionStep host actions = some final) :
    .observe i ∉ actions := by
  intro hmem
  obtain ⟨-, observed, hobserved⟩ := exists_observation_of_mem hmem hrun
  rw [hnone] at hobserved
  contradiction

end Runs

end Eltanin.Agent
