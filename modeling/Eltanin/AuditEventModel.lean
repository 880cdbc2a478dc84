import Eltanin.AuditModel
import Eltanin.AuthorizationModel

/-!
# From an authorization event to an audit entry

The handler's event sink copies an event field by field into the plain mirror
types of the audit log and appends it.  Whether the append succeeds has no
influence on the response.
-/

namespace Eltanin.Agent

open Eltanin.Core Backend Protocol Audit

def recordedOperation : Operation → RecordedOperation
  | .requestLease => .requestLease
  | .releaseLease => .releaseLease
  | .agentStatus => .agentStatus

def recordedRequest : ClientRequest → RecordedRequest
  | .requestLease request => .requestLease request.resource request.action
  | .releaseLease request => .releaseLease request.leaseId
  | .agentStatus => .agentStatus

def recordedPeerCredential (credential : PeerCredential) :
    RecordedPeerCredential where
  pid := credential.pid
  effectiveUid := credential.effectiveUid
  effectiveGid := credential.effectiveGid

def recordedPeerConsistency : PeerConsistency → RecordedPeerConsistency
  | .consistent => .consistent
  | .credentialDivergence peerEffectiveUid observedRealUid
      observedEffectiveUid =>
      .credentialDivergence peerEffectiveUid observedRealUid
        observedEffectiveUid
  | .peerUnmapped => .peerUnmapped
  | .indeterminate reason => .indeterminate reason

def recordedPeer (peer : PeerContext) : RecordedPeer where
  credential := recordedPeerCredential peer.credential
  consistency := recordedPeerConsistency peer.consistency
  observed := peer.observed

def recordedPolicyProvenance (policy : PolicyProvenance) :
    RecordedPolicyProvenance where
  policyId := policy.policyId
  policyRevision := policy.policyRevision
  schemaVersion := policy.schemaVersion

def recordedDecisionReason : DecisionReason → RecordedDecisionReason
  | .noMatchingRule => .noMatchingRule
  | .explicitAllow matchedRules => .explicitAllow matchedRules
  | .explicitDeny matchedRules overriddenAllowRules =>
      .explicitDeny matchedRules overriddenAllowRules
  | .indeterminateEvidence rules => .indeterminateEvidence rules

def recordedPolicyDecision (decision : PolicyDecision) :
    RecordedPolicyDecision where
  effect := decision.effect
  reason := recordedDecisionReason decision.reason
  policy := recordedPolicyProvenance decision.policy

def recordedLeaseError : LeaseError → RecordedLeaseError
  | .denied decision => .denied (recordedPolicyDecision decision)
  | .nonPositiveTtl => .nonPositiveTtl
  | .ttlExceedsMaximum requested maximum =>
      .ttlExceedsMaximum requested maximum
  | .expiryOverflow => .expiryOverflow

def recordedLeaseValidity : LeaseValidity → RecordedLeaseValidity
  | .valid remaining => .valid remaining
  | .foreignIssuer issuedBy => .foreignIssuer issuedBy
  | .revoked => .revoked
  | .resourceMismatch => .resourceMismatch
  | .actionMismatch => .actionMismatch
  | .workloadMismatch => .workloadMismatch
  | .workloadIndeterminate => .workloadIndeterminate
  | .executableMismatch => .executableMismatch
  | .expired expiredAt => .expired expiredAt

def recordedOutcome : AuthorizationOutcome → RecordedOutcome
  | .granted leaseId expiresAt => .granted leaseId expiresAt
  | .policyDenied decision => .policyDenied (recordedPolicyDecision decision)
  | .peerNotAuthorizable => .peerNotAuthorizable
  | .leaseIssueFailed error => .leaseIssueFailed (recordedLeaseError error)
  | .enforcementRefused result => .enforcementRefused result
  | .backendFailed error => .backendFailed error
  | .capacityExhausted outstanding => .capacityExhausted outstanding
  | .released revocation backend => .released revocation backend
  | .releaseRefused validity =>
      .releaseRefused (recordedLeaseValidity validity)
  | .releaseUnknownLease => .releaseUnknownLease
  | .statusReported => .statusReported

/-- The entry which `AuditEventSink::record` appends. -/
def AuthorizationEvent.entry (event : AuthorizationEvent) : AuditEntry where
  operation := recordedOperation event.operation
  requested := recordedRequest event.request
  peer := recordedPeer event.peer
  outcome := recordedOutcome event.outcome
  response := event.response

end Eltanin.Agent
