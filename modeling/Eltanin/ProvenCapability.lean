import Eltanin.AuthorizationGrant
import Eltanin.BackendComposition

/-!
# No grant rests on an unproven capability

A composed run contains, for every answer which an enforcement got from the
fake backend, the observation it started with.  The answer allows only if that
observation found the resource with its device enforcement supported, so this
is what every grant goes back to, whatever was inserted, removed or scripted
before and since.
-/

namespace Eltanin.Agent

open Eltanin.Core Backend Protocol InterleavedSessions PartialExecution
  AuthorizationHandler Agent.Composition

section Enforcement

variable {handler : AuthorizationHandler} {backend : FakeBackend}
  {host next : Composition} {actions : List CompositionAction} {i : ℕ}
  {request : ComputeRequest} {reply : Completion BackendReply}

/-! ## The action which answers an enforcement -/

theorem CallTransition.enforced_of_mem {state after : LeaseState}
    {call : Call} {action : CallAction} {phase : Phase}
    {new : List Happening}
    (htransition : CallTransition handler state call action after phase new)
    (hmem : .enforced request reply ∈ new) :
    ∃ lease, call.phase = .issued lease ∧ action = .enforce reply ∧
      request = lease.origin.request := by
  cases htransition with
  | @enforced lease result hissued =>
      simp only [List.mem_singleton, Happening.enforced.injEq] at hmem
      exact ⟨lease, hissued, by rw [hmem.2], hmem.1⟩
  | @enforcePanicked lease hissued =>
      simp only [List.mem_singleton, Happening.enforced.injEq] at hmem
      exact ⟨lease, hissued, by rw [hmem.2], hmem.1⟩
  | @released now given asked observed lease =>
      cases hteardown : teardownReply (state.prune now) asked.leaseId given <;>
        simp [hteardown] at hmem
  | _ => simp at hmem

theorem enforced_of_step {agent after : AgentState} {action : AgentAction}
    (hstep : handler.step agent action = some after)
    (hnew : (i, .enforced request reply) ∉ agent.transcript)
    (hmem : (i, .enforced request reply) ∈ after.transcript) :
    ∃ call lease, action = .act i (.enforce reply) ∧
      agent.sessions[i]? = some call ∧ call.phase = .issued lease ∧
      request = lease.origin.request := by
  cases action with
  | start opening =>
      cases hstep
      exact (hnew hmem).elim
  | act j action =>
      obtain ⟨call, state, local', new, hcall, hact, hafter⟩ :=
        step_act_eq_some_iff.mp hstep
      rw [hafter] at hmem
      rcases System.mem_transcript_advance_iff.mp hmem with hold | hlatest
      · exact (hnew hold).elim
      obtain ⟨rfl, hlatest⟩ := hlatest
      obtain ⟨phase, _, htransition⟩ := reaches_of_act hact
      obtain ⟨lease, hissued, rfl, hrequest⟩ :=
        htransition.enforced_of_mem hlatest
      exact ⟨call, lease, rfl, hcall, hissued, hrequest⟩

/-- Only the composed enforcement answers an enforcement. -/
theorem Composition.Moves.enforced_of_new {action : CompositionAction}
    (hmoves : Moves handler host next action)
    (hnew : (i, .enforced request reply) ∉ host.agent.transcript)
    (hmem : (i, .enforced request reply) ∈ next.agent.transcript) :
    ∃ call lease observed, action = .enforce i ∧
      host.agent.sessions[i]? = some call ∧ call.phase = .issued lease ∧
      request = lease.origin.request ∧
      host.observations i = some observed ∧
      reply = .returned (host.backend.enforceObserved request observed) := by
  cases hmoves with
  | handled hplain hagent hbackend hobservations =>
      obtain ⟨_, _, rfl, _⟩ := enforced_of_step hagent hnew hmem
      contradiction
  | observed hcall hissued hnone hagent hbackend hobservations =>
      rw [hagent] at hmem
      exact (hnew hmem).elim
  | @enforced j call lease observed hcall hissued hobserved hagent hbackend
      hobservations =>
      obtain ⟨found, held, haction, hfound, hheld, hrequest⟩ :=
        enforced_of_step hagent hnew hmem
      simp only [Action.act.injEq, CallAction.enforce.injEq] at haction
      obtain ⟨rfl, hreply⟩ := haction
      have hsame : call = found := Option.some.inj (hcall.symm.trans hfound)
      subst hsame
      have hlease : lease = held :=
        Phase.issued.inj (hissued.symm.trans hheld)
      subst hlease
      refine ⟨call, lease, observed, rfl, hcall, hissued, hrequest,
        hobserved, ?_⟩
      rw [← hreply, hrequest]
  | released hagent hbackend hobservations =>
      obtain ⟨_, _, haction, _⟩ := enforced_of_step hagent hnew hmem
      simp at haction
  | arranged hforeign hagent hobservations =>
      rw [hagent] at hmem
      exact (hnew hmem).elim

/-- Only the observation of a call makes its observation. -/
theorem Composition.Moves.observed_of_new {action : CompositionAction}
    {observed : Except BackendError ProtectedResource}
    (hmoves : Moves handler host next action)
    (hnew : host.observations i ≠ some observed)
    (hobserved : next.observations i = some observed) :
    action = .observe i := by
  have hkept : next.observations ≠ host.observations := by
    intro hsame
    rw [hsame] at hobserved
    exact hnew hobserved
  cases hmoves with
  | handled hplain hagent hbackend hobservations =>
      exact (hkept hobservations).elim
  | @observed j call lease hcall hissued hnone hagent hbackend
      hobservations =>
      by_cases heq : i = j
      · rw [heq]
      · rw [hobservations, Function.update_of_ne heq] at hobserved
        exact (hnew hobserved).elim
  | enforced hcall hissued hother hagent hbackend hobservations =>
      exact (hkept hobservations).elim
  | released hagent hbackend hobservations =>
      exact (hkept hobservations).elim
  | arranged hforeign hagent hobservations =>
      exact (hkept hobservations).elim

/-! ## From the answer back to the observation -/

/-- How the enforcement of a call went in a composed run: it observed once,
in the state `observing`, and was answered later, in the state `replying`. -/
structure EnforcementTrace (handler : AuthorizationHandler)
    (backend : FakeBackend) (actions : List CompositionAction) (i : ℕ)
    (request : ComputeRequest) (reply : Completion BackendReply)
    (before between after : List CompositionAction)
    (observing replying : Composition) : Prop where
  actions_eq :
    actions = before ++ .observe i :: between ++ .enforce i :: after
  runs_observing : handler.ComposedRuns backend before observing
  runs_replying :
    handler.ComposedRuns backend (before ++ .observe i :: between) replying
  unobserved : .observe i ∉ before ++ between ++ after
  holds : ∃ call lease, observing.agent.sessions[i]? = some call ∧
    call.phase = .issued lease ∧ request = lease.origin.request
  reply_eq : reply = .returned (replying.backend.enforceObserved request
    (observing.backend.observe request.resource))

theorem AuthorizationHandler.ComposedRuns.issued_mem
    {call : Call} {lease : ComputeLease}
    (hruns : handler.ComposedRuns backend actions host)
    (hcall : host.agent.sessions[i]? = some call)
    (hissued : call.phase = .issued lease) (other : ComputeLease) :
    (i, .issued other) ∈ host.agent.transcript ↔ other = lease := by
  obtain ⟨agentActions, hagent⟩ := hruns.exists_runs
  have hexplained := hagent.explained hcall
  simp only [Explained, hissued] at hexplained
  rcases hexplained with ⟨_, _, _, _, hword⟩
  rw [← System.mem_wordOf_iff, hword]
  simp [issueEvents]

theorem AuthorizationHandler.ComposedRuns.exists_enforcementTrace
    (hruns : handler.ComposedRuns backend actions host)
    (hmem : (i, .enforced request reply) ∈ host.agent.transcript) :
    ∃ before between after observing replying,
      EnforcementTrace handler backend actions i request reply before between
        after observing replying := by
  obtain ⟨earlier, answering, after, replying, answered, hactions, hearlier,
      hanswering, hafter, hnew, hanswered⟩ :=
    exists_establishing_step
      (fun host : Composition =>
        (i, .enforced request reply) ∈ host.agent.transcript)
      (by simp [composed, initial, System.initial]) hmem hruns
  obtain ⟨call, lease, observed, rfl, hcall, hissued, hrequest, hobserved,
    hreply⟩ := (moves_of_step hanswering).enforced_of_new hnew hanswered
  obtain ⟨before, watching, between, observing, watched, hsplit, hbefore,
      hwatching, hbetween, hunwatched, hwatched⟩ :=
    exists_establishing_step
      (fun host : Composition => host.observations i = some observed)
      (by simp [composed]) hobserved hearlier
  obtain rfl := (moves_of_step hwatching).observed_of_new hunwatched hwatched
  obtain ⟨holder, held, hholder, hheld, hnone, hagent, hfound⟩ :=
    (moves_of_step hwatching).exists_observation
  -- the call holds the same lease when it observes and when it is answered
  have hissuedMem : (i, .issued held) ∈ replying.agent.transcript := by
    apply mem_transcript_of_execute _ hbetween
    rw [hagent]
    exact (ComposedRuns.issued_mem hbefore hholder hheld held).mpr rfl
  have hlease : held = lease :=
    (ComposedRuns.issued_mem hearlier hcall hissued held).mp hissuedMem
  have hobservedEq : observed =
      observing.backend.observe request.resource := by
    rw [hrequest, ← hlease]
    exact Option.some.inj (hwatched.symm.trans hfound)
  have hansweredObserved : answered.observations i = some observed :=
    (moves_of_step hanswering).observation_kept hobserved
  refine ⟨before, between, after, observing, replying, ?_, hbefore, ?_, ?_,
    ⟨holder, held, hholder, hheld, by rw [hrequest, hlease]⟩, ?_⟩
  · rw [hactions, hsplit]
  · rw [← hsplit]
    exact hearlier
  · simp only [List.mem_append, not_or]
    exact ⟨⟨not_observe_mem_of_unobserved hnone hbefore,
      not_observe_mem hwatched hbetween⟩,
      not_observe_mem hansweredObserved hafter⟩
  · rw [hreply, hobservedEq]

/-! ## What a grant goes back to -/

/-- The one observation of the call found the resource present, with its
device enforcement supported. -/
structure ObservedSupported (handler : AuthorizationHandler)
    (backend : FakeBackend) (actions : List CompositionAction) (i : ℕ)
    (resource : ResourceIdentity) (before after : List CompositionAction)
    (observing : Composition) (found : ProtectedResource) : Prop where
  actions_eq : actions = before ++ .observe i :: after
  runs : handler.ComposedRuns backend before observing
  once : .observe i ∉ before ++ after
  present : observing.backend.resources.lookup resource = some found
  supported : found.capabilities.stateOf .deviceEnforce = .supported

theorem EnforcementTrace.observedSupported
    {before between after : List CompositionAction}
    {observing replying : Composition}
    (htrace : EnforcementTrace handler backend actions i request
      (.returned (.ok .allowed)) before between after observing replying) :
    ∃ found, ObservedSupported handler backend actions i request.resource
      before (between ++ .enforce i :: after) observing found := by
  have hallowed := Completion.returned.inj htrace.reply_eq
  obtain ⟨found, hfound, hsupported⟩ :=
    FakeBackend.supported_of_enforceObserved_eq_allowed hallowed.symm
  have honce := htrace.unobserved
  simp only [List.mem_append, not_or] at honce
  refine ⟨found, ?_, htrace.runs_observing, ?_,
    FakeBackend.observe_eq_ok_iff.mp hfound, hsupported⟩
  · rw [htrace.actions_eq, List.append_assoc, List.cons_append]
  · simp [honce]

end Enforcement

/-- Over the fake backend, arranged in any way while the requests run, a grant
goes back to an observation of the requested resource with its device
enforcement supported; over the Apple backend there is no grant. -/
theorem AuthorizationHandler.granted_on_proven_capability
    (handler : AuthorizationHandler) :
    (∀ backend actions host (i : ℕ) (call : Call) view,
      handler.ComposedRuns backend actions host →
      host.agent.sessions[i]? = some call →
      call.response? = some (.leaseGranted view) →
      ∃ request before after observing found,
        call.request = .requestLease request ∧
        ObservedSupported handler backend actions i request.resource before
          after observing found) ∧
    ∀ actions agent (i : ℕ) (call : Call) view,
      handler.Runs actions agent →
      (∀ j reply, .act j (.enforce reply) ∈ actions →
        ∃ request, reply = .returned (AppleBackend.enforce request)) →
      agent.sessions[i]? = some call →
      call.response? ≠ some (.leaseGranted view) := by
  constructor
  · intro backend actions host i call view hruns hcall hgranted
    obtain ⟨agentActions, hagent⟩ := hruns.exists_runs
    obtain ⟨request, now, later, lease, rest, hrequest, hgrants, hword, _⟩ :=
      (hagent.explained hcall).grants hgranted
    have hmem : (i, .enforced lease.origin.request
        (.returned (.ok .allowed))) ∈ host.agent.transcript := by
      rw [← System.mem_wordOf_iff, hword]
      simp [grantEvents]
    obtain ⟨before, between, after, observing, replying, htrace⟩ :=
      hruns.exists_enforcementTrace hmem
    obtain ⟨found, hobserved⟩ := htrace.observedSupported
    rw [hgrants.issued.origin] at hobserved
    exact ⟨request, before, _, observing, found, hrequest, hobserved⟩
  · intro actions agent i call view hruns hanswers hcall hgranted
    obtain ⟨request, now, later, lease, rest, hrequest, hgrants, hword, _⟩ :=
      (hruns.explained hcall).grants hgranted
    have hmem : (i, .enforced lease.origin.request
        (.returned (.ok .allowed))) ∈ agent.transcript := by
      rw [← System.mem_wordOf_iff, hword]
      simp [grantEvents]
    obtain ⟨before, answering, after, replying, answered, hactions, _,
        hanswering, _, hnew, hanswered⟩ :=
      exists_establishing_step
        (fun agent : AgentState => (i, .enforced lease.origin.request
          (.returned (.ok .allowed))) ∈ agent.transcript)
        (by simp [initial, System.initial]) hmem hruns
    obtain ⟨_, _, rfl, _⟩ := enforced_of_step hanswering hnew hanswered
    obtain ⟨asked, hreply⟩ :=
      hanswers i (.returned (.ok .allowed)) (by simp [hactions])
    simp [AppleBackend.enforce] at hreply

/-! ## A resource removed in the middle of a grant -/

def enforceableBackend : FakeBackend :=
  FakeBackend.new.insert
    { identity := sampleResource
      capabilities := .new [.deviceEnforce]
      memory := .unified }

/-- The resource disappears after the enforcement has observed it. -/
def removedActions : List CompositionAction :=
  [.handle (.start (workerPeer .unsupported, sampleLeaseRequest)),
    .handle (.act 0 (.issue ⟨0⟩)),
    .observe 0,
    .removeResource sampleResource,
    .enforce 0,
    .handle (.act 0 (.readClock ⟨1⟩)),
    .handle (.act 0 .settle),
    .handle (.act 0 .record)]

def removedState : Composition :=
  Option.get (execute sampleHandler.compositionStep
    (sampleHandler.composed enforceableBackend) removedActions) (by decide)

/-- The same request, asked over the Apple backend. -/
def appleActions : List AgentAction :=
  [.start (workerPeer .unsupported, sampleLeaseRequest),
    .act 0 (.issue ⟨0⟩),
    .act 0 (.enforce (.returned (AppleBackend.enforce sampleRequest))),
    .act 0 .settle]

def appleState : AgentState :=
  sampleHandler.finalState appleActions (by decide)

theorem removedState_granted_on_proven_capability :
    (∃ request before after observing found,
      sampleLeaseRequest = .requestLease request ∧
      ObservedSupported sampleHandler enforceableBackend removedActions 0
        request.resource before after observing found) ∧
    ∀ call, appleState.sessions[0]? = some call →
      call.response? ≠ some (.leaseGranted sampleView) := by
  obtain ⟨hfake, hfruitless⟩ := sampleHandler.granted_on_proven_capability
  constructor
  · exact hfake enforceableBackend removedActions removedState 0 grantedCall
      sampleView (Option.some_get _).symm (by decide) rfl
  · intro call hcall
    apply hfruitless appleActions appleState 0 call sampleView
      (runs_finalState _) _ hcall
    intro j reply hmem
    refine ⟨sampleRequest, ?_⟩
    simp only [appleActions, List.mem_cons, reduceCtorEq, Action.act.injEq,
      CallAction.enforce.injEq, and_false, false_or, or_false,
      List.not_mem_nil] at hmem
    exact hmem.2

end Eltanin.Agent
