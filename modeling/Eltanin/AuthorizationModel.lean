import Eltanin.LeaseStateModel
import Eltanin.PeerModel
import Eltanin.ProtocolModel

/-!
# The authorization handler, one locked section at a time

`RequestLease` issues and reserves under the lock, lets the backend enforce
without it, and settles under the lock again.  `ReleaseLease` is one locked
section which includes the backend's teardown.  Each function below is such a
section; clock readings and backend replies are its arguments.
-/

namespace Eltanin.Agent

open Eltanin.Core Backend Protocol

inductive Operation where
  | requestLease
  | releaseLease
  | agentStatus
  deriving DecidableEq, Repr

inductive AuthorizationOutcome where
  | granted (leaseId : LeaseId) (expiresAt : MonotonicTime)
  | policyDenied (decision : PolicyDecision)
  | peerNotAuthorizable
  | leaseIssueFailed (error : LeaseError)
  | enforcementRefused (result : EnforcementResult)
  | backendFailed (error : BackendError)
  | capacityExhausted (outstanding : ℕ)
  | released (revocation : RevocationOutcome)
      (backend : Option EnforcementResult)
  | releaseRefused (validity : LeaseValidity)
  | releaseUnknownLease
  | statusReported
  deriving DecidableEq

structure AuthorizationEvent where
  operation : Operation
  request : ClientRequest
  peer : PeerContext
  outcome : AuthorizationOutcome
  response : AgentResponse
  deriving DecidableEq

/-! ## Configuration -/

inductive ConfigError where
  | nonPositiveLeaseTtl
  deriving DecidableEq, Repr

structure AuthorizationConfig where
  leaseTtl : Duration
  maxOutstandingLeases : ℕ
  positive : ¬leaseTtl.IsZero

namespace AuthorizationConfig

def defaultMaxOutstandingLeases : ℕ := 1024

def new (leaseTtl : Duration) : Except ConfigError AuthorizationConfig :=
  if hzero : leaseTtl.IsZero then .error .nonPositiveLeaseTtl
  else .ok ⟨leaseTtl, defaultMaxOutstandingLeases, hzero⟩

def withMaxOutstandingLeases (self : AuthorizationConfig) (max : ℕ) :
    AuthorizationConfig :=
  { self with maxOutstandingLeases := max }

end AuthorizationConfig

/-- What a handler is built from and no request changes.  Its mutable part is
the `LeaseState` behind the lock. -/
structure AuthorizationHandler where
  instanceId : IssuerInstanceId
  policy : PolicySet
  config : AuthorizationConfig

def denialReasonFor : DecisionReason → DenialReason
  | .explicitDeny _ _ => .explicitDeny
  | .indeterminateEvidence _ => .indeterminateEvidence
  | .noMatchingRule => .noMatchingRule
  | .explicitAllow _ => .noMatchingRule

inductive IssueFailure where
  | capacityExhausted (outstanding : ℕ)
  | denied (decision : PolicyDecision)
  | other (error : LeaseError)
  deriving DecidableEq

structure Conclusion where
  outcome : AuthorizationOutcome
  response : AgentResponse
  deriving DecidableEq

def IssueFailure.conclude : IssueFailure → Conclusion
  | .capacityExhausted outstanding =>
      ⟨.capacityExhausted outstanding, .error .internal⟩
  | .denied decision =>
      ⟨.policyDenied decision,
        .leaseDenied (denialReasonFor decision.reason)⟩
  | .other error => ⟨.leaseIssueFailed error, .error .internal⟩

namespace AuthorizationHandler

/-- The mutable state of a new handler: the issuer's maximum ttl is exactly
the configured one. -/
def newState (self : AuthorizationHandler) : LeaseState :=
  LeaseState.new (LeaseIssuer.new self.instanceId self.config.leaseTtl)
    self.config.maxOutstandingLeases

/-- The first locked section of `RequestLease`. -/
def issueReservingCapacity (self : AuthorizationHandler)
    (state : LeaseState) (provenance : ProvenanceRecord)
    (now : MonotonicTime) :
    LeaseState × Completion (Except IssueFailure ComputeLease) :=
  let guarded := state.prune now
  if guarded.IsAtCapacity then
    (guarded, .returned (.error
      (.capacityExhausted self.config.maxOutstandingLeases)))
  else
    match guarded.issuer.issue self.policy provenance now
        self.config.leaseTtl with
    | (issuer, .returned (.ok lease)) =>
        (({ guarded with issuer := issuer } : LeaseState).reserve,
          .returned (.ok lease))
    | (issuer, .returned (.error (.denied decision))) =>
        ({ guarded with issuer := issuer },
          .returned (.error (.denied decision)))
    | (issuer, .returned (.error error)) =>
        ({ guarded with issuer := issuer },
          .returned (.error (.other error)))
    | (issuer, .panicked) => ({ guarded with issuer := issuer }, .panicked)

def handleStatus : Conclusion :=
  ⟨.statusReported, .status ⟨domainSchemaVersion⟩⟩

/-- The second locked section of `RequestLease`, after the backend allowed
and the clock was read again: a grant with nothing left of it is taken back. -/
def settleAllowed (state : LeaseState) (lease : ComputeLease)
    (remaining : Duration) : LeaseState × Conclusion :=
  if remaining.IsZero then
    ((state.revoke lease.id).1.releaseReservation,
      ⟨.leaseIssueFailed .expiryOverflow, .error .internal⟩)
  else
    (state.insert lease,
      ⟨.granted lease.id lease.expiresAt,
        .leaseGranted ⟨lease.id, remaining⟩⟩)

/-- The second locked section of `RequestLease` after any other reply. -/
def settleRefused (state : LeaseState) (lease : ComputeLease)
    (outcome : AuthorizationOutcome) : LeaseState × Conclusion :=
  ((state.revoke lease.id).1.releaseReservation,
    ⟨outcome, .error .internal⟩)

/-- What the locked section of `ReleaseLease` did: the lease id it removed and
the resource it had the backend tear down. -/
structure ReleaseSection where
  state : LeaseState
  removed : Option LeaseId
  tornDown : Option ResourceIdentity
  completion : Completion Conclusion

/-- `backend.revoke(&resource).ok()`, when it is called at all. -/
def releaseConclusion (revocation : RevocationOutcome)
    (backend : Option (Completion BackendReply)) : Completion Conclusion :=
  match backend with
  | none =>
      .returned ⟨.released revocation none, .leaseReleased .released⟩
  | some (.returned reply) =>
      .returned ⟨.released revocation reply.toOption,
        .leaseReleased .released⟩
  | some .panicked => .panicked

/-- The locked section of `ReleaseLease`.  The backend's reply is consulted
only when no other stored lease needs the resource. -/
def handleReleaseLease (state : LeaseState) (request : ReleaseRequest)
    (observed : ExecutionContext) (now : MonotonicTime)
    (backend : Completion BackendReply) : ReleaseSection :=
  let guarded := state.prune now
  match guarded.get request.leaseId with
  | none =>
      ⟨guarded, none, none,
        .returned ⟨.releaseUnknownLease, .leaseReleased .refused⟩⟩
  | some stored =>
      let presented : ProvenanceRecord := ⟨observed, stored.origin.request⟩
      let validity := guarded.issuer.validate stored presented now
      if validity.isValid = false then
        ⟨guarded, none, none,
          .returned ⟨.releaseRefused validity, .leaseReleased .refused⟩⟩
      else
        let id := request.leaseId
        let resource := stored.origin.request.resource
        let revokeBackend := !guarded.anyOtherLiveLeaseForSameResource id
        let revoked := guarded.revoke id
        let state := revoked.1.remove id
        if revokeBackend then
          ⟨state, some id, some resource,
            releaseConclusion revoked.2 (some backend)⟩
        else
          ⟨state, some id, none, releaseConclusion revoked.2 none⟩

/-! ## What each section can do -/

section IssueReservingCapacity

variable {handler : AuthorizationHandler} {state : LeaseState}
  {provenance : ProvenanceRecord} {now : MonotonicTime}

theorem issueReservingCapacity_eq_ok {next : LeaseState}
    {lease : ComputeLease}
    (hok : handler.issueReservingCapacity state provenance now =
      (next, .returned (.ok lease))) :
    ¬(state.prune now).IsAtCapacity ∧
      ∃ issuer, (state.prune now).issuer.Issued handler.policy provenance now
          handler.config.leaseTtl issuer lease ∧
        next = ({ state.prune now with issuer := issuer } :
          LeaseState).reserve := by
  unfold issueReservingCapacity at hok
  simp only at hok
  split at hok
  · simp at hok
  next hroom =>
  refine ⟨hroom, ?_⟩
  split at hok
  next issuer issued hissue =>
    simp only [Prod.mk.injEq, Completion.returned.injEq,
      Except.ok.injEq] at hok
    rcases hok with ⟨hnext, hlease⟩
    subst hlease
    exact ⟨issuer, LeaseIssuer.issued_of_issue_eq hissue, hnext.symm⟩
  · simp at hok
  · simp at hok
  · simp at hok

theorem issueReservingCapacity_fst_of_ne_ok {next : LeaseState}
    {completion : Completion (Except IssueFailure ComputeLease)}
    (hsection : handler.issueReservingCapacity state provenance now =
      (next, completion))
    (hfailed : ∀ lease, completion ≠ .returned (.ok lease)) :
    next = state.prune now := by
  have hsame : ∀ {issuer outcome},
      (state.prune now).issuer.issue handler.policy provenance now
        handler.config.leaseTtl = (issuer, outcome) →
      (∀ lease, outcome ≠ .returned (.ok lease)) →
      ({ state.prune now with issuer := issuer } : LeaseState) =
        state.prune now := by
    intro issuer outcome hissue hne
    rw [LeaseIssuer.issue_fst_of_ne_ok hissue hne]
  unfold issueReservingCapacity at hsection
  simp only at hsection
  split at hsection
  · exact (congrArg Prod.fst hsection).symm
  split at hsection
  next issuer lease hissue =>
    exact (hfailed lease (congrArg Prod.snd hsection).symm).elim
  next issuer decision hissue =>
    rw [hsame hissue (by simp)] at hsection
    exact (congrArg Prod.fst hsection).symm
  next issuer error _ hissue =>
    rw [hsame hissue (by simp)] at hsection
    exact (congrArg Prod.fst hsection).symm
  next issuer hissue =>
    rw [hsame hissue (by simp)] at hsection
    exact (congrArg Prod.fst hsection).symm

theorem issueReservingCapacity_exhausted_iff
    (handler : AuthorizationHandler) (provenance : ProvenanceRecord) :
    (∃ outstanding, (handler.issueReservingCapacity state provenance now).2 =
        .returned (.error (.capacityExhausted outstanding))) ↔
      (state.prune now).IsAtCapacity := by
  constructor
  · intro hexhausted
    rcases hexhausted with ⟨outstanding, heq⟩
    by_contra hroom
    simp only [issueReservingCapacity, hroom, if_false] at heq
    split at heq <;> simp at heq
  · intro hfull
    exact ⟨handler.config.maxOutstandingLeases,
      by simp only [issueReservingCapacity, hfull, if_true]⟩

end IssueReservingCapacity

section HandleReleaseLease

variable {state : LeaseState} {request : ReleaseRequest}
  {observed : ExecutionContext} {now : MonotonicTime}
  {backend : Completion BackendReply}

/-- The lease which a release of this request by this workload would remove. -/
def Releasable (state : LeaseState) (request : ReleaseRequest)
    (observed : ExecutionContext) (now : MonotonicTime)
    (lease : ComputeLease) : Prop :=
  (state.prune now).get request.leaseId = some lease ∧
    (state.prune now).issuer.Validated lease
      ⟨observed, lease.origin.request⟩ now

theorem handleReleaseLease_of_releasable {lease : ComputeLease}
    (hreleasable : Releasable state request observed now lease) :
    handleReleaseLease state request observed now backend =
      let guarded := state.prune now
      let shared := guarded.anyOtherLiveLeaseForSameResource request.leaseId
      { state := (guarded.revoke request.leaseId).1.remove request.leaseId
        removed := some request.leaseId
        tornDown :=
          if shared then none else some lease.origin.request.resource
        completion := releaseConclusion (guarded.revoke request.leaseId).2
          (if shared then none else some backend) } := by
  rcases hreleasable with ⟨hstored, hvalidated⟩
  have hvalid := (LeaseIssuer.isValid_validate_iff _ _ _ _).mpr hvalidated
  unfold handleReleaseLease
  simp only [hstored, hvalid, Bool.true_eq_false, if_false]
  cases (state.prune now).anyOtherLiveLeaseForSameResource
    request.leaseId <;> rfl

theorem handleReleaseLease_of_not_releasable
    (hnot : ∀ lease, ¬Releasable state request observed now lease) :
    ∃ conclusion, conclusion.response = .leaseReleased .refused ∧
      ∀ backend, handleReleaseLease state request observed now backend =
        ⟨state.prune now, none, none, .returned conclusion⟩ := by
  unfold handleReleaseLease
  cases hstored : (state.prune now).get request.leaseId with
  | none =>
      exact ⟨⟨.releaseUnknownLease, .leaseReleased .refused⟩, rfl,
        fun backend => by simp only [hstored]⟩
  | some lease =>
      have hinvalid : ((state.prune now).issuer.validate lease
          ⟨observed, lease.origin.request⟩ now).isValid = false := by
        rw [← Bool.not_eq_true, LeaseIssuer.isValid_validate_iff]
        intro hvalidated
        exact hnot lease ⟨hstored, hvalidated⟩
      let validity := (state.prune now).issuer.validate lease
        ⟨observed, lease.origin.request⟩ now
      exact ⟨⟨.releaseRefused validity, .leaseReleased .refused⟩, rfl,
        fun backend => by
          simp only [hstored, hinvalid, if_true, validity]⟩

end HandleReleaseLease

end AuthorizationHandler

end Eltanin.Agent
