import Eltanin.LeaseModel

/-!
# Requests and responses

What a client may ask and what it is told.  A request carries no identity or
evidence; a response is a lossy view of what happened inside the agent.
-/

namespace Eltanin.Protocol

open Eltanin.Core

structure LeaseRequest where
  resource : ResourceIdentity
  action : Action
  deriving DecidableEq, Repr

structure ReleaseRequest where
  leaseId : LeaseId
  deriving DecidableEq, Repr

inductive ClientRequest where
  | requestLease (request : LeaseRequest)
  | releaseLease (request : ReleaseRequest)
  | agentStatus
  deriving DecidableEq, Repr

/-- A correlation id which the client chooses and the response echoes. -/
structure RequestId where
  id : UInt64
  deriving DecidableEq, Repr

structure RequestBody where
  requestId : RequestId
  body : ClientRequest
  deriving DecidableEq, Repr

abbrev Request := Versioned RequestBody

/-- The only path from a decoded request to a provenance record: the context
comes from the agent's own collector, never from the request. -/
def provenanceFor (request : LeaseRequest) (derived : ExecutionContext) :
    ProvenanceRecord :=
  ⟨derived, ⟨request.resource, request.action⟩⟩

structure LeaseView where
  leaseId : LeaseId
  remaining : Duration
  deriving DecidableEq

inductive DenialReason where
  | noMatchingRule
  | explicitDeny
  | indeterminateEvidence
  deriving DecidableEq, Repr

inductive ReleaseOutcome where
  | released
  | refused
  deriving DecidableEq, Repr

structure AgentStatusView where
  protocolVersion : UInt16
  deriving DecidableEq, Repr

inductive ErrorCode where
  | unsupportedVersion (found expected : UInt16)
  | malformedRequest
  | oversized
  | unknownOperation
  | internal
  deriving DecidableEq, Repr

inductive AgentResponse where
  | leaseGranted (lease : LeaseView)
  | leaseDenied (reason : DenialReason)
  | leaseReleased (outcome : ReleaseOutcome)
  | status (status : AgentStatusView)
  | error (code : ErrorCode)
  deriving DecidableEq

/-- The id is that of the request, where one could be read. -/
structure ResponseBody where
  requestId : Option RequestId
  body : AgentResponse
  deriving DecidableEq

abbrev Response := Versioned ResponseBody

end Eltanin.Protocol
