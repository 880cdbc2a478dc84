import Eltanin.AgentModel

/-!
# Everything one action of a call can do

`AuthorizationHandler.act` is a function of the call, the lease store and the
environment's choices.  Every proof about runs needs it in the other direction:
from an action which was performed to the branch of the source it took, with
what that branch has checked.  Each constructor is one such branch.
-/

namespace Eltanin.Agent

open Eltanin.Core Backend Protocol InterleavedSessions AuthorizationHandler

/-- The reply a release gets from the backend: none when another stored lease
still needs the resource. -/
def teardownReply (guarded : LeaseState) (id : LeaseId)
    (backend : Completion BackendReply) : Option (Completion BackendReply) :=
  if guarded.anyOtherLiveLeaseForSameResource id then none else some backend

/-- An issued lease is taken back: nothing of it is left after an allowing
reply, or the backend did not allow. -/
inductive Withdraws (lease : ComputeLease) :
    Phase → AuthorizationOutcome → Prop
  | lapsed {remaining : Duration} (hzero : remaining.IsZero) :
      Withdraws lease (.timed lease remaining)
        (.leaseIssueFailed .expiryOverflow)
  | refused {result : EnforcementResult} (hrefused : result ≠ .allowed) :
      Withdraws lease (.enforced lease (.ok result))
        (.enforcementRefused result)
  | failed {error : BackendError} :
      Withdraws lease (.enforced lease (.error error)) (.backendFailed error)

inductive CallTransition (handler : AuthorizationHandler)
    (state : LeaseState) (call : Call) :
    CallAction → LeaseState → Phase → List Happening → Prop
  | status
      (harrived : call.phase = .arrived)
      (hrequest : call.request = .agentStatus) :
      CallTransition handler state call .status state
        (.concluded handleStatus) []
  | requestRefused {now : MonotonicTime} {request : LeaseRequest}
      (harrived : call.phase = .arrived)
      (hrequest : call.request = .requestLease request)
      (hpeer : call.peer.authorizable = none) :
      CallTransition handler state call (.issue now) state
        (.concluded ⟨.peerNotAuthorizable,
          .leaseDenied .indeterminateEvidence⟩) []
  | issued {now : MonotonicTime} {request : LeaseRequest}
      {observed : ExecutionContext} {issuer : LeaseIssuer}
      {lease : ComputeLease}
      (harrived : call.phase = .arrived)
      (hrequest : call.request = .requestLease request)
      (hpeer : call.peer.authorizable = some observed)
      (hroom : ¬(state.prune now).IsAtCapacity)
      (hissued : (state.prune now).issuer.Issued handler.policy
        (provenanceFor request observed) now handler.config.leaseTtl issuer
        lease) :
      CallTransition handler state call (.issue now)
        ({ state.prune now with issuer := issuer } : LeaseState).reserve
        (.issued lease) [.pruned now, .issued lease]
  | issueFailed {now : MonotonicTime} {request : LeaseRequest}
      {observed : ExecutionContext} {failure : IssueFailure}
      (harrived : call.phase = .arrived)
      (hrequest : call.request = .requestLease request)
      (hpeer : call.peer.authorizable = some observed)
      (hfailed : handler.issueReservingCapacity state
        (provenanceFor request observed) now =
          (state.prune now, .returned (.error failure))) :
      CallTransition handler state call (.issue now) (state.prune now)
        (.concluded failure.conclude) [.pruned now]
  | issuePanicked {now : MonotonicTime} {request : LeaseRequest}
      {observed : ExecutionContext}
      (harrived : call.phase = .arrived)
      (hrequest : call.request = .requestLease request)
      (hpeer : call.peer.authorizable = some observed)
      (hpanicked : handler.issueReservingCapacity state
        (provenanceFor request observed) now =
          (state.prune now, .panicked)) :
      CallTransition handler state call (.issue now) (state.prune now)
        (.unwound none) [.pruned now]
  | enforced {lease : ComputeLease} {reply : BackendReply}
      (hissued : call.phase = .issued lease) :
      CallTransition handler state call (.enforce (.returned reply)) state
        (.enforced lease reply)
        [.enforced lease.origin.request (.returned reply)]
  | enforcePanicked {lease : ComputeLease}
      (hissued : call.phase = .issued lease) :
      CallTransition handler state call (.enforce .panicked) state
        (.unwound (some lease)) [.enforced lease.origin.request .panicked]
  | timed {now : MonotonicTime} {lease : ComputeLease}
      (henforced : call.phase = .enforced lease (.ok .allowed)) :
      CallTransition handler state call (.readClock now) state
        (.timed lease (lease.expiresAt.saturatingDurationSince now))
        [.timed now]
  | granted {lease : ComputeLease} {remaining : Duration}
      (htimed : call.phase = .timed lease remaining)
      (hpositive : ¬remaining.IsZero) :
      CallTransition handler state call .settle (state.insert lease)
        (.concluded ⟨.granted lease.id lease.expiresAt,
          .leaseGranted ⟨lease.id, remaining⟩⟩) [.inserted lease]
  | withdrawn {lease : ComputeLease} {outcome : AuthorizationOutcome}
      (hwithdraws : Withdraws lease call.phase outcome) :
      CallTransition handler state call .settle
        (state.revoke lease.id).1.releaseReservation
        (.concluded ⟨outcome, .error .internal⟩) [.compensated lease.id]
  | releaseRefusedUnlocked {now : MonotonicTime}
      {backend : Completion BackendReply} {request : ReleaseRequest}
      (harrived : call.phase = .arrived)
      (hrequest : call.request = .releaseLease request)
      (hpeer : call.peer.authorizable = none) :
      CallTransition handler state call (.release now backend) state
        (.concluded ⟨.peerNotAuthorizable, .leaseReleased .refused⟩) []
  | releaseRefused {now : MonotonicTime}
      {backend : Completion BackendReply} {request : ReleaseRequest}
      {observed : ExecutionContext} {conclusion : Conclusion}
      (harrived : call.phase = .arrived)
      (hrequest : call.request = .releaseLease request)
      (hpeer : call.peer.authorizable = some observed)
      (hnot : ∀ lease, ¬Releasable state request observed now lease)
      (hrefused : conclusion.response = .leaseReleased .refused) :
      CallTransition handler state call (.release now backend)
        (state.prune now) (.concluded conclusion) [.pruned now]
  | released {now : MonotonicTime} {backend : Completion BackendReply}
      {request : ReleaseRequest} {observed : ExecutionContext}
      {lease : ComputeLease}
      (harrived : call.phase = .arrived)
      (hrequest : call.request = .releaseLease request)
      (hpeer : call.peer.authorizable = some observed)
      (hreleasable : Releasable state request observed now lease) :
      CallTransition handler state call (.release now backend)
        (((state.prune now).revoke request.leaseId).1.remove request.leaseId)
        (.ofCompletion (releaseConclusion
          ((state.prune now).revoke request.leaseId).2
          (teardownReply (state.prune now) request.leaseId backend)))
        (.pruned now :: .released request.leaseId ::
          ((teardownReply (state.prune now) request.leaseId backend).map
            (Happening.backendRevoked lease.origin.request.resource)).toList)
  | recorded {conclusion : Conclusion}
      (hconcluded : call.phase = .concluded conclusion) :
      CallTransition handler state call .record state
        (.answered conclusion.response) [.recorded (call.event conclusion)]

variable {handler : AuthorizationHandler} {state next : LeaseState}
  {call after : Call} {new : List Happening}

def Reaches (handler : AuthorizationHandler) (state : LeaseState)
    (call : Call) (action : CallAction) (next : LeaseState) (after : Call)
    (new : List Happening) : Prop :=
  ∃ phase, after = call.advanceTo phase ∧
    CallTransition handler state call action next phase new

theorem reaches_of_beginRequestLease {request : LeaseRequest}
    {now : MonotonicTime}
    (harrived : call.phase = .arrived)
    (hrequest : call.request = .requestLease request)
    (hbegin : handler.beginRequestLease state call request now =
      (next, after, new)) :
    Reaches handler state call (.issue now) next after new := by
  unfold beginRequestLease at hbegin
  split at hbegin
  next hpeer =>
    cases hbegin
    exact ⟨_, rfl, .requestRefused harrived hrequest hpeer⟩
  next observed hpeer =>
    split at hbegin
    next issued lease hsection =>
      cases hbegin
      obtain ⟨hroom, issuer, hissued, hnext⟩ :=
        issueReservingCapacity_eq_ok hsection
      subst hnext
      exact ⟨_, rfl, .issued harrived hrequest hpeer hroom hissued⟩
    next pruned failure hsection =>
      cases hbegin
      have hnext := issueReservingCapacity_fst_of_ne_ok hsection (by simp)
      subst hnext
      exact ⟨_, rfl, .issueFailed harrived hrequest hpeer hsection⟩
    next pruned hsection =>
      cases hbegin
      have hnext := issueReservingCapacity_fst_of_ne_ok hsection (by simp)
      subst hnext
      exact ⟨_, rfl, .issuePanicked harrived hrequest hpeer hsection⟩

theorem reaches_of_enforceLease {lease : ComputeLease}
    {reply : Completion BackendReply}
    (hissued : call.phase = .issued lease)
    (henforce : enforceLease state call lease reply = (next, after, new)) :
    Reaches handler state call (.enforce reply) next after new := by
  cases reply with
  | returned result =>
      cases henforce
      exact ⟨_, rfl, .enforced hissued⟩
  | panicked =>
      cases henforce
      exact ⟨_, rfl, .enforcePanicked hissued⟩

theorem reaches_of_settleLease
    (hsettle : settleLease state call = some (next, after, new)) :
    Reaches handler state call .settle next after new := by
  unfold settleLease at hsettle
  split at hsettle
  next lease remaining htimed =>
    by_cases hzero : remaining.IsZero
    · simp only [settleAllowed, hzero, if_true] at hsettle
      cases hsettle
      exact ⟨_, rfl, .withdrawn (htimed ▸ .lapsed hzero)⟩
    · simp only [settleAllowed, hzero, if_false] at hsettle
      cases hsettle
      exact ⟨_, rfl, .granted htimed hzero⟩
  next lease result henforced =>
    split at hsettle
    · contradiction
    next hrefused =>
      cases hsettle
      exact ⟨_, rfl, .withdrawn (henforced ▸ .refused hrefused)⟩
  next lease error henforced =>
    cases hsettle
    exact ⟨_, rfl, .withdrawn (henforced ▸ .failed)⟩
  · contradiction

theorem reaches_of_performReleaseLease {request : ReleaseRequest}
    {now : MonotonicTime} {backend : Completion BackendReply}
    (harrived : call.phase = .arrived)
    (hrequest : call.request = .releaseLease request)
    (hperform : performReleaseLease state call request now backend =
      (next, after, new)) :
    Reaches handler state call (.release now backend) next after new := by
  unfold performReleaseLease at hperform
  split at hperform
  next hpeer =>
    cases hperform
    exact ⟨_, rfl, .releaseRefusedUnlocked harrived hrequest hpeer⟩
  next observed hpeer =>
    by_cases hexists : ∃ lease, Releasable state request observed now lease
    · rcases hexists with ⟨lease, hreleasable⟩
      have htransition : CallTransition handler state call
          (.release now backend) _ _ _ :=
        .released harrived hrequest hpeer hreleasable
      rw [handleReleaseLease_of_releasable hreleasable] at hperform
      cases hperform
      refine ⟨_, rfl, ?_⟩
      cases hshared : (state.prune now).anyOtherLiveLeaseForSameResource
          request.leaseId <;>
        simpa [teardownReply, ReleaseSection.happenings, hshared]
          using htransition
    · have hnot : ∀ lease, ¬Releasable state request observed now lease :=
        fun lease hreleasable => hexists ⟨lease, hreleasable⟩
      obtain ⟨conclusion, hrefused, hsection⟩ :=
        handleReleaseLease_of_not_releasable hnot
      rw [hsection backend] at hperform
      cases hperform
      exact ⟨_, rfl,
        .releaseRefused harrived hrequest hpeer hnot hrefused⟩

/-- The inversion of `act`. -/
theorem reaches_of_act {action : CallAction}
    (hact : handler.act state call action = some (next, after, new)) :
    Reaches handler state call action next after new := by
  cases action with
  | status =>
      simp only [act] at hact
      split at hact
      next harrived hrequest =>
        cases hact
        exact ⟨_, rfl, .status harrived hrequest⟩
      · contradiction
  | issue now =>
      simp only [act] at hact
      split at hact
      next request harrived hrequest =>
        exact reaches_of_beginRequestLease harrived hrequest
          (Option.some.inj hact)
      · contradiction
  | enforce reply =>
      simp only [act] at hact
      split at hact
      next lease hissued =>
        exact reaches_of_enforceLease hissued (Option.some.inj hact)
      · contradiction
  | readClock now =>
      simp only [act] at hact
      split at hact
      next lease henforced =>
        cases hact
        exact ⟨_, rfl, .timed henforced⟩
      · contradiction
  | settle => exact reaches_of_settleLease hact
  | release now backend =>
      simp only [act] at hact
      split at hact
      next request harrived hrequest =>
        exact reaches_of_performReleaseLease harrived hrequest
          (Option.some.inj hact)
      · contradiction
  | record =>
      simp only [act] at hact
      split at hact
      next conclusion hconcluded =>
        cases hact
        exact ⟨_, rfl, .recorded hconcluded⟩
      · contradiction

end Eltanin.Agent
