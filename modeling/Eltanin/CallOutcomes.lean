import Eltanin.LedgerRefinement
import Eltanin.CallHistory

/-!
# How a call concludes

Each constructor of `Concludes` is one exit of the two handler functions, with
the outcome and the response it pairs and what has been checked before it.
The maximum ttl of a handler's issuer is the configured ttl for good, so that
an issue can only fail for lack of capacity, for the policy's decision, or
because the expiry leaves the clock's range.
-/

namespace Eltanin.Agent

open Eltanin.Core Backend Protocol InterleavedSessions AuthorizationHandler

/-! ## The exits -/

inductive Concludes (handler : AuthorizationHandler) (state : LeaseState)
    (call : Call) : CallAction → Conclusion → Prop
  | status (hrequest : call.request = .agentStatus) :
      Concludes handler state call .status handleStatus
  | requestRefused {now : MonotonicTime} {request : LeaseRequest}
      (hrequest : call.request = .requestLease request)
      (hpeer : call.peer.authorizable = none) :
      Concludes handler state call (.issue now)
        ⟨.peerNotAuthorizable, .leaseDenied .indeterminateEvidence⟩
  | issueFailed {now : MonotonicTime} {request : LeaseRequest}
      {observed : ExecutionContext} {failure : IssueFailure}
      (hrequest : call.request = .requestLease request)
      (hpeer : call.peer.authorizable = some observed)
      (hfailed : handler.issueReservingCapacity state
        (provenanceFor request observed) now =
          (state.prune now, .returned (.error failure))) :
      Concludes handler state call (.issue now) failure.conclude
  | granted {lease : ComputeLease} {remaining : Duration}
      (htimed : call.phase = .timed lease remaining) :
      Concludes handler state call .settle
        ⟨.granted lease.id lease.expiresAt,
          .leaseGranted ⟨lease.id, remaining⟩⟩
  | withdrawn {lease : ComputeLease} {outcome : AuthorizationOutcome}
      (hwithdraws : Withdraws lease call.phase outcome) :
      Concludes handler state call .settle ⟨outcome, .error .internal⟩
  | releaseRefusedUnlocked {now : MonotonicTime}
      {backend : Completion BackendReply} {request : ReleaseRequest}
      (hrequest : call.request = .releaseLease request)
      (hpeer : call.peer.authorizable = none) :
      Concludes handler state call (.release now backend)
        ⟨.peerNotAuthorizable, .leaseReleased .refused⟩
  | releaseUnknown {now : MonotonicTime} {backend : Completion BackendReply}
      {request : ReleaseRequest}
      (hrequest : call.request = .releaseLease request) :
      Concludes handler state call (.release now backend)
        ⟨.releaseUnknownLease, .leaseReleased .refused⟩
  | releaseRefused {now : MonotonicTime} {backend : Completion BackendReply}
      {request : ReleaseRequest} {observed : ExecutionContext}
      {stored : ComputeLease}
      (hrequest : call.request = .releaseLease request)
      (hstored : (state.prune now).get request.leaseId = some stored)
      (hinvalid : ((state.prune now).issuer.validate stored
        ⟨observed, stored.origin.request⟩ now).isValid = false) :
      Concludes handler state call (.release now backend)
        ⟨.releaseRefused ((state.prune now).issuer.validate stored
            ⟨observed, stored.origin.request⟩ now),
          .leaseReleased .refused⟩
  | released {now : MonotonicTime} {backend : Completion BackendReply}
      {request : ReleaseRequest} {stored : ComputeLease}
      {reply : Option EnforcementResult}
      (hrequest : call.request = .releaseLease request)
      (hstored : (state.prune now).get request.leaseId = some stored) :
      Concludes handler state call (.release now backend)
        ⟨.released ((state.prune now).revoke request.leaseId).2 reply,
          .leaseReleased .released⟩

variable {handler : AuthorizationHandler} {state next : LeaseState}
  {call after : Call} {new : List Happening} {conclusion : Conclusion}

theorem releaseConclusion_eq_returned {revocation : RevocationOutcome}
    {backend : Option (Completion BackendReply)}
    (hreturned : releaseConclusion revocation backend =
      .returned conclusion) :
    ∃ reply, conclusion =
      ⟨.released revocation reply, .leaseReleased .released⟩ := by
  unfold releaseConclusion at hreturned
  split at hreturned
  · exact ⟨none, (Completion.returned.inj hreturned).symm⟩
  next reply =>
    exact ⟨reply.toOption, (Completion.returned.inj hreturned).symm⟩
  · contradiction

theorem concludes_of_handleReleaseLease {request : ReleaseRequest}
    {observed : ExecutionContext} {now : MonotonicTime}
    {backend : Completion BackendReply}
    (hrequest : call.request = .releaseLease request)
    (hreturned : (handleReleaseLease state request observed now
      backend).completion = .returned conclusion) :
    Concludes handler state call (.release now backend) conclusion := by
  unfold handleReleaseLease at hreturned
  simp only at hreturned
  split at hreturned
  next hnone =>
    cases hreturned
    exact .releaseUnknown hrequest
  next stored hstored =>
    split at hreturned
    next hinvalid =>
      cases hreturned
      exact .releaseRefused hrequest hstored hinvalid
    next hvalid =>
      have hexit : ∀ backend',
          releaseConclusion ((state.prune now).revoke request.leaseId).2
            backend' = .returned conclusion →
          Concludes handler state call (.release now backend) conclusion := by
        intro backend' hconclusion
        rcases releaseConclusion_eq_returned hconclusion with ⟨reply, heq⟩
        rw [heq]
        exact .released hrequest hstored
      split at hreturned
      · exact hexit (some backend) hreturned
      · exact hexit none hreturned

theorem concludes_of_performReleaseLease {request : ReleaseRequest}
    {now : MonotonicTime} {backend : Completion BackendReply}
    (hrequest : call.request = .releaseLease request)
    (hperform : performReleaseLease state call request now backend =
      (next, after, new))
    (hconcluded : after.phase = .concluded conclusion) :
    Concludes handler state call (.release now backend) conclusion := by
  unfold performReleaseLease at hperform
  split at hperform
  next hpeer =>
    cases hperform
    cases hconcluded
    exact .releaseRefusedUnlocked hrequest hpeer
  next observed hpeer =>
    cases hperform
    apply concludes_of_handleReleaseLease hrequest
    simp only [Call.advanceTo] at hconcluded
    cases hcompletion : (handleReleaseLease state request observed now
        backend).completion with
    | returned exit =>
        rw [hcompletion] at hconcluded
        exact congrArg Completion.returned (Phase.concluded.inj hconcluded)
    | panicked =>
        rw [hcompletion] at hconcluded
        contradiction

/-- An action after which the call has concluded took one of the exits. -/
theorem concludes_of_act {action : CallAction}
    (hact : handler.act state call action = some (next, after, new))
    (hconcluded : after.phase = .concluded conclusion) :
    Concludes handler state call action conclusion := by
  obtain ⟨phase, hafter, htransition⟩ := reaches_of_act hact
  have hphase : phase = .concluded conclusion := by
    rw [← hconcluded, hafter, Call.advanceTo]
  cases htransition with
  | status harrived hrequest =>
      cases hphase
      exact .status hrequest
  | requestRefused harrived hrequest hpeer =>
      cases hphase
      exact .requestRefused hrequest hpeer
  | issueFailed harrived hrequest hpeer hfailed =>
      cases hphase
      exact .issueFailed hrequest hpeer hfailed
  | granted htimed hpositive =>
      cases hphase
      exact .granted htimed
  | withdrawn hwithdraws =>
      cases hphase
      exact .withdrawn hwithdraws
  | releaseRefusedUnlocked harrived hrequest hpeer =>
      simp only [act, harrived, hrequest] at hact
      exact concludes_of_performReleaseLease hrequest (Option.some.inj hact)
        hconcluded
  | releaseRefused harrived hrequest hpeer hnot hrefused =>
      simp only [act, harrived, hrequest] at hact
      exact concludes_of_performReleaseLease hrequest (Option.some.inj hact)
        hconcluded
  | released harrived hrequest hpeer hreleasable =>
      simp only [act, harrived, hrequest] at hact
      exact concludes_of_performReleaseLease hrequest (Option.some.inj hact)
        hconcluded
  | issued harrived hrequest hpeer hroom hissued => contradiction
  | issuePanicked harrived hrequest hpeer hpanicked => contradiction
  | enforced hissued => contradiction
  | enforcePanicked hissued => contradiction
  | timed henforced => contradiction
  | recorded hconcluded => contradiction

/-! ## What all conclusions have in common -/

theorem CallTransition.recorded_eq {state next : LeaseState} {call : Call}
    {action : CallAction} {phase : Phase} {new : List Happening}
    {event : AuthorizationEvent}
    (htransition : CallTransition handler state call action next phase new)
    (hrecorded : .recorded event ∈ new) :
    ∃ conclusion, call.phase = .concluded conclusion ∧
      phase = .answered conclusion.response ∧ new = [.recorded event] ∧
      event = call.event conclusion := by
  cases htransition with
  | @recorded conclusion hconcluded =>
      have hevent : event = call.event conclusion := by simpa using hrecorded
      exact ⟨conclusion, hconcluded, rfl, by rw [hevent], hevent⟩
  | @released _ _ request =>
      cases hreply : teardownReply _ request.leaseId _ <;>
        simp [hreply] at hrecorded
  | _ => simp at hrecorded

/-- A property of the outcomes which calls have concluded with and of those
which have been recorded. -/
structure OutcomesFit (Fits : AuthorizationOutcome → Prop)
    (agent : AgentState) : Prop where
  concluded : ∀ {i : ℕ} {call : Call} {conclusion : Conclusion},
    agent.sessions[i]? = some call → call.phase = .concluded conclusion →
      Fits conclusion.outcome
  recorded : ∀ {i : ℕ} {event : AuthorizationEvent},
    (i, .recorded event) ∈ agent.transcript → Fits event.outcome

section OutcomesFit

variable {Fits : AuthorizationOutcome → Prop} {agent : AgentState}

theorem OutcomesFit.enroll (hfit : OutcomesFit Fits agent)
    (peer : PeerContext) (request : ClientRequest) :
    OutcomesFit Fits (agent.enroll ⟨peer, request, .arrived⟩) where
  concluded := by
    intro i call conclusion hcall hconcluded
    rcases System.getElem?_enroll_eq_some_iff.mp hcall with
      ⟨-, rfl⟩ | hold
    · contradiction
    · exact hfit.concluded hold hconcluded
  recorded := hfit.recorded

/-- It is enough to look at the exits which the action can take. -/
theorem OutcomesFit.advance {i : ℕ} {action : CallAction}
    (hfit : OutcomesFit Fits agent)
    (hfits : ∀ conclusion,
      Concludes handler agent.shared call action conclusion →
        Fits conclusion.outcome)
    (hcall : agent.sessions[i]? = some call)
    (hact : handler.act agent.shared call action =
      some (next, after, new)) :
    OutcomesFit Fits (agent.advance i next after new) where
  concluded := by
    intro j other conclusion hother hconcluded
    rcases (System.getElem?_advance_eq_some_iff hcall).mp hother with
      ⟨-, rfl⟩ | ⟨-, hold⟩
    · exact hfits conclusion (concludes_of_act hact hconcluded)
    · exact hfit.concluded hold hconcluded
  recorded := by
    intro j event hmem
    rcases System.mem_transcript_advance_iff.mp hmem with hold | ⟨-, hnew⟩
    · exact hfit.recorded hold
    · obtain ⟨phase, -, htransition⟩ := reaches_of_act hact
      rcases htransition.recorded_eq hnew with
        ⟨conclusion, hconcluded, -, -, rfl⟩
      exact hfit.concluded hcall hconcluded

end OutcomesFit

theorem mem_transcript_of_step {agent after : AgentState}
    {action : AgentAction} {event : ℕ × Happening}
    (hstep : handler.step agent action = some after)
    (hmem : event ∈ agent.transcript) : event ∈ after.transcript := by
  cases action with
  | start opening =>
      cases hstep
      exact hmem
  | act i action =>
      obtain ⟨_, _, _, _, _, _, hafter⟩ := step_act_eq_some_iff.mp hstep
      rw [hafter]
      exact System.mem_transcript_advance_iff.mpr (.inl hmem)

theorem mem_transcript_of_reachable {agent final : AgentState}
    {event : ℕ × Happening}
    (hreachable : PartialExecution.Reachable handler.step agent final)
    (hmem : event ∈ agent.transcript) : event ∈ final.transcript := by
  rcases hreachable with ⟨actions, hrun⟩
  exact PartialExecution.execute_guarded_invariant (fun _ _ => True)
    (fun agent : AgentState => event ∈ agent.transcript)
    (fun _ _ _ hevent _ hstep => mem_transcript_of_step hstep hevent)
    hmem (PartialExecution.guarded_of_forall fun _ _ _ => trivial) hrun

/-- The rule for outcomes: every exit is taken in a state reached before, and
what has happened until then is part of what has happened in the end. -/
theorem AuthorizationHandler.Runs.outcomesFit
    {Fits : AuthorizationOutcome → Prop} {actions : List AgentAction}
    {agent : AgentState} (hruns : handler.Runs actions agent)
    (hfits : ∀ before earlier (i : ℕ) (call : Call) action conclusion,
      handler.Runs before earlier →
      (∀ event ∈ earlier.transcript, event ∈ agent.transcript) →
      earlier.sessions[i]? = some call →
      Concludes handler earlier.shared call action conclusion →
      Fits conclusion.outcome) :
    OutcomesFit Fits agent := by
  refine PartialExecution.execute_invariant_of_between (OutcomesFit Fits)
    ?_ ?_ hruns
  · intro earlier action later hreachable hfit hstep hlater
    rcases hreachable with ⟨before, hbefore⟩
    have hkept : ∀ event ∈ earlier.transcript, event ∈ agent.transcript := by
      intro event hmem
      exact mem_transcript_of_reachable hlater
        (mem_transcript_of_step hstep hmem)
    cases action with
    | start opening =>
        cases hstep
        exact hfit.enroll opening.1 opening.2
    | act i action =>
        obtain ⟨call, next, after, new, hcall, hact, hafter⟩ :=
          step_act_eq_some_iff.mp hstep
        rw [hafter]
        refine hfit.advance ?_ hcall hact
        intro conclusion hconcludes
        exact hfits before earlier i call action conclusion hbefore hkept
          hcall hconcludes
  · constructor <;> simp [initial, System.initial]

/-! ## The configured ttl -/

theorem CallTransition.maxTtl_eq {action : CallAction} {phase : Phase}
    (htransition : CallTransition handler state call action next phase new) :
    next.issuer.maxTtl = state.issuer.maxTtl := by
  have hrevoke : ∀ (guarded : LeaseState) (id : LeaseId),
      (guarded.revoke id).1.issuer.maxTtl = guarded.issuer.maxTtl := by
    intro guarded id
    rcases guarded.issuer.revoke_cases id with ⟨-, -, -, -, heq⟩ | ⟨-, heq⟩ <;>
      simp only [LeaseState.revoke, heq]
  cases htransition with
  | issued harrived hrequest hpeer hroom hissued =>
      simp only [LeaseState.reserve, hissued.next_eq]
      rfl
  | withdrawn hwithdraws => exact hrevoke _ _
  | released harrived hrequest hpeer hreleasable => exact hrevoke _ _
  | _ => rfl

theorem AuthorizationHandler.Runs.maxTtl_eq {actions : List AgentAction}
    {agent : AgentState} (hruns : handler.Runs actions agent) :
    agent.shared.issuer.maxTtl = handler.config.leaseTtl := by
  refine Program.run_invariant
    (fun agent : AgentState =>
      agent.shared.issuer.maxTtl = handler.config.leaseTtl)
    ?_ ?_ ?_ hruns
  · intro agent opening hmax
    exact hmax
  · intro agent i action call next after new hmax hcall hact
    obtain ⟨phase, -, htransition⟩ := reaches_of_act hact
    exact htransition.maxTtl_eq.trans hmax
  · rfl

/-- Why the first section of `RequestLease` fails, when the issuer's maximum
ttl is the configured ttl. -/
theorem failure_of_issueReservingCapacity {provenance : ProvenanceRecord}
    {now : MonotonicTime} {failure : IssueFailure}
    (hmax : state.issuer.maxTtl = handler.config.leaseTtl)
    (hfailed : handler.issueReservingCapacity state provenance now =
      (next, .returned (.error failure))) :
    let decision :=
      handler.policy.evaluate provenance.context provenance.request
    (state.prune now).IsAtCapacity ∧
        failure = .capacityExhausted handler.config.maxOutstandingLeases ∨
      ¬(state.prune now).IsAtCapacity ∧ decision.effect ≠ .allow ∧
        failure = .denied decision ∨
      ¬(state.prune now).IsAtCapacity ∧ decision.effect = .allow ∧
        failure = .other .expiryOverflow := by
  intro decision
  have herror : ∀ {issuer error},
      (state.prune now).issuer.issue handler.policy provenance now
        handler.config.leaseTtl = (issuer, .returned (.error error)) →
      decision.effect ≠ .allow ∧ error = .denied decision ∨
        decision.effect = .allow ∧ error = .expiryOverflow :=
    fun hissue => LeaseIssuer.error_of_issue_eq handler.config.positive
      hmax.symm hissue
  unfold issueReservingCapacity at hfailed
  simp only at hfailed
  split at hfailed
  next hfull =>
    simp only [Prod.mk.injEq, Completion.returned.injEq,
      Except.error.injEq] at hfailed
    exact .inl ⟨hfull, hfailed.2.symm⟩
  next hroom =>
  right
  split at hfailed
  · simp at hfailed
  next issuer denied hissue =>
    simp only [Prod.mk.injEq, Completion.returned.injEq,
      Except.error.injEq] at hfailed
    rcases herror hissue with ⟨hdeny, heq⟩ | ⟨hallow, heq⟩
    · rw [LeaseError.denied.inj heq] at hfailed
      exact .inl ⟨hroom, hdeny, hfailed.2.symm⟩
    · contradiction
  next issuer error hnot hissue =>
    simp only [Prod.mk.injEq, Completion.returned.injEq,
      Except.error.injEq] at hfailed
    rcases herror hissue with ⟨hdeny, heq⟩ | ⟨hallow, heq⟩
    · exact (hnot _ heq).elim
    · rw [heq] at hfailed
      exact .inr ⟨hroom, hallow, hfailed.2.symm⟩
  · simp at hfailed

end Eltanin.Agent
