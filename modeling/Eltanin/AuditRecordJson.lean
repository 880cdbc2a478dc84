import Eltanin.AuditModel
import Eltanin.WireJson
import Mathlib.Data.Finset.Sort
import Mathlib.Data.String.Basic

/-!
# Audit records as documents

The derived readers and writers of `eltanin-audit`.  Five tagged enums nest in
one another: each variant is a tag beside its fields, and a set of rule ids is
the array of the ids in their order.
-/

namespace Eltanin.Audit

open Json Eltanin.Core Backend Protocol

/-! ## Requests and peers -/

def eventIdJson (eventId : AuditEventId) : JsonValue :=
  .object [("instance", .string eventId.instanceId.tag),
    ("sequence", u64Json eventId.sequence)]

def readEventId (value : JsonValue) : Option AuditEventId := do
  let fields ← fieldsOf false ["instance", "sequence"] value
  let tag ← required readString fields "instance"
  let sequence ← required readU64 fields "sequence"
  return ⟨⟨tag⟩, sequence⟩

def wallClockTimeJson (time : WallClockTime) : JsonValue :=
  .object [("unix_secs", i64Json time.unixSecs),
    ("nanos", u32Json time.nanos)]

def readWallClockTime (value : JsonValue) : Option WallClockTime := do
  let fields ← fieldsOf false ["unix_secs", "nanos"] value
  let unixSecs ← required readI64 fields "unix_secs"
  let nanos ← required readU32 fields "nanos"
  return ⟨unixSecs, nanos⟩

def RecordedOperation.name : RecordedOperation → String
  | .requestLease => "request_lease"
  | .releaseLease => "release_lease"
  | .agentStatus => "agent_status"

def readRecordedOperation : JsonValue → Option RecordedOperation :=
  readUnitVariant false fun name =>
    [("request_lease", .requestLease), ("release_lease", .releaseLease),
      ("agent_status", .agentStatus)].lookup name

def recordedRequestJson : RecordedRequest → JsonValue
  | .requestLease resource action =>
      taggedJson "op" "request_lease"
        [("resource", resourceJson resource), ("action", actionJson action)]
  | .releaseLease leaseId =>
      taggedJson "op" "release_lease" [("lease_id", leaseIdJson leaseId)]
  | .agentStatus => taggedJson "op" "agent_status" []

def readRecordedLeaseRequest (value : JsonValue) : Option RecordedRequest := do
  let fields ← fieldsOf false ["resource", "action"] value
  let resource ← required readResource fields "resource"
  let action ← required readAction fields "action"
  return .requestLease resource action

def readRecordedRequest : JsonValue → Option RecordedRequest :=
  readTagged false "op"
    [("request_lease", readRecordedLeaseRequest),
      ("release_lease", readField "lease_id" readLeaseId .releaseLease),
      ("agent_status", readUnit .agentStatus)]

def credentialJson (credential : RecordedPeerCredential) : JsonValue :=
  .object [("pid", u32Json credential.pid),
    ("effective_uid", u32Json credential.effectiveUid),
    ("effective_gid", u32Json credential.effectiveGid)]

def readCredential (value : JsonValue) : Option RecordedPeerCredential := do
  let fields ←
    fieldsOf false ["pid", "effective_uid", "effective_gid"] value
  let pid ← required readU32 fields "pid"
  let effectiveUid ← required readU32 fields "effective_uid"
  let effectiveGid ← required readU32 fields "effective_gid"
  return ⟨pid, effectiveUid, effectiveGid⟩

def consistencyJson : RecordedPeerConsistency → JsonValue
  | .consistent => taggedJson "consistency" "consistent" []
  | .credentialDivergence peerEffectiveUid observedRealUid
      observedEffectiveUid =>
      taggedJson "consistency" "credential_divergence"
        [("peer_effective_uid", u32Json peerEffectiveUid),
          ("observed_real_uid", evidenceJson u32Json observedRealUid),
          ("observed_effective_uid",
            evidenceJson u32Json observedEffectiveUid)]
  | .peerUnmapped => taggedJson "consistency" "peer_unmapped" []
  | .indeterminate reason =>
      taggedJson "consistency" "indeterminate" [("reason", .string reason)]

def readCredentialDivergence (value : JsonValue) :
    Option RecordedPeerConsistency := do
  let fields ← fieldsOf false ["peer_effective_uid", "observed_real_uid",
    "observed_effective_uid"] value
  let peerEffectiveUid ← required readU32 fields "peer_effective_uid"
  let observedRealUid ←
    required (readEvidence true readU32) fields "observed_real_uid"
  let observedEffectiveUid ←
    required (readEvidence true readU32) fields "observed_effective_uid"
  return .credentialDivergence peerEffectiveUid observedRealUid
    observedEffectiveUid

def readConsistency : JsonValue → Option RecordedPeerConsistency :=
  readTagged false "consistency"
    [("consistent", readUnit .consistent),
      ("credential_divergence", readCredentialDivergence),
      ("peer_unmapped", readUnit .peerUnmapped),
      ("indeterminate", readField "reason" readString .indeterminate)]

def peerJson (peer : RecordedPeer) : JsonValue :=
  .object [("credential", credentialJson peer.credential),
    ("consistency", consistencyJson peer.consistency),
    ("observed", contextJson peer.observed)]

def readPeer (value : JsonValue) : Option RecordedPeer := do
  let fields ← fieldsOf false ["credential", "consistency", "observed"] value
  let credential ← required readCredential fields "credential"
  let consistency ← required readConsistency fields "consistency"
  let observed ← required readContext fields "observed"
  return ⟨credential, consistency, observed⟩

/-! ## Decisions -/

/-- A `BTreeSet` visits the ids in the order of their bytes, which is that of
their characters. -/
def ruleIdsJson (rules : Finset RuleId) : JsonValue :=
  vectorJson .string ((rules.image RuleId.id).sort (· ≤ ·))

def readRuleIds (value : JsonValue) : Option (Finset RuleId) :=
  (readVector readString value).map fun ids =>
    (ids.map RuleId.mk).toFinset

def decisionReasonJson : RecordedDecisionReason → JsonValue
  | .noMatchingRule => taggedJson "reason" "no_matching_rule" []
  | .explicitAllow matchedRules =>
      taggedJson "reason" "explicit_allow"
        [("matched_rules", ruleIdsJson matchedRules)]
  | .explicitDeny matchedRules overriddenAllowRules =>
      taggedJson "reason" "explicit_deny"
        [("matched_rules", ruleIdsJson matchedRules),
          ("overridden_allow_rules", ruleIdsJson overriddenAllowRules)]
  | .indeterminateEvidence rules =>
      taggedJson "reason" "indeterminate_evidence"
        [("rules", ruleIdsJson rules)]

def readExplicitDeny (value : JsonValue) :
    Option RecordedDecisionReason := do
  let fields ←
    fieldsOf false ["matched_rules", "overridden_allow_rules"] value
  let matchedRules ← required readRuleIds fields "matched_rules"
  let overriddenAllowRules ←
    required readRuleIds fields "overridden_allow_rules"
  return .explicitDeny matchedRules overriddenAllowRules

def readDecisionReason : JsonValue → Option RecordedDecisionReason :=
  readTagged true "reason"
    [("no_matching_rule", readUnit .noMatchingRule),
      ("explicit_allow",
        readField "matched_rules" readRuleIds .explicitAllow),
      ("explicit_deny", readExplicitDeny),
      ("indeterminate_evidence",
        readField "rules" readRuleIds .indeterminateEvidence)]

def effectName : Effect → String
  | .allow => "allow"
  | .deny => "deny"

def readEffect : JsonValue → Option Effect :=
  readUnitVariant true fun name =>
    [("allow", Effect.allow), ("deny", .deny)].lookup name

def policyProvenanceJson (policy : RecordedPolicyProvenance) : JsonValue :=
  .object [("policy_id", .string policy.policyId.id),
    ("policy_revision", u32Json policy.policyRevision),
    ("schema_version", u16Json policy.schemaVersion)]

def readPolicyProvenance (value : JsonValue) :
    Option RecordedPolicyProvenance := do
  let fields ←
    fieldsOf false ["policy_id", "policy_revision", "schema_version"] value
  let policyId ← required readString fields "policy_id"
  let policyRevision ← required readU32 fields "policy_revision"
  let schemaVersion ← required readU16 fields "schema_version"
  return ⟨⟨policyId⟩, policyRevision, schemaVersion⟩

def policyDecisionJson (decision : RecordedPolicyDecision) : JsonValue :=
  .object [("effect", .string (effectName decision.effect)),
    ("reason", decisionReasonJson decision.reason),
    ("policy", policyProvenanceJson decision.policy)]

def readPolicyDecision (value : JsonValue) :
    Option RecordedPolicyDecision := do
  let fields ← fieldsOf false ["effect", "reason", "policy"] value
  let effect ← required readEffect fields "effect"
  let reason ← required readDecisionReason fields "reason"
  let policy ← required readPolicyProvenance fields "policy"
  return ⟨effect, reason, policy⟩

/-! ## Outcomes -/

def monotonicTimeJson (time : MonotonicTime) : JsonValue :=
  u64Json time.nanos

def readMonotonicTime (value : JsonValue) : Option MonotonicTime :=
  (readU64 value).map MonotonicTime.mk

def leaseErrorJson : RecordedLeaseError → JsonValue
  | .denied decision =>
      taggedJson "error" "denied" [("decision", policyDecisionJson decision)]
  | .nonPositiveTtl => taggedJson "error" "non_positive_ttl" []
  | .ttlExceedsMaximum requested maximum =>
      taggedJson "error" "ttl_exceeds_maximum"
        [("requested", durationJson requested),
          ("maximum", durationJson maximum)]
  | .expiryOverflow => taggedJson "error" "expiry_overflow" []

def readTtlExceedsMaximum (value : JsonValue) :
    Option RecordedLeaseError := do
  let fields ← fieldsOf false ["requested", "maximum"] value
  let requested ← required readDuration fields "requested"
  let maximum ← required readDuration fields "maximum"
  return .ttlExceedsMaximum requested maximum

def readLeaseError : JsonValue → Option RecordedLeaseError :=
  readTagged true "error"
    [("denied", readField "decision" readPolicyDecision .denied),
      ("non_positive_ttl", readUnit .nonPositiveTtl),
      ("ttl_exceeds_maximum", readTtlExceedsMaximum),
      ("expiry_overflow", readUnit .expiryOverflow)]

def leaseValidityJson : RecordedLeaseValidity → JsonValue
  | .valid remaining =>
      taggedJson "validity" "valid" [("remaining", durationJson remaining)]
  | .foreignIssuer issuedBy =>
      taggedJson "validity" "foreign_issuer"
        [("issued_by", .string issuedBy.tag)]
  | .revoked => taggedJson "validity" "revoked" []
  | .resourceMismatch => taggedJson "validity" "resource_mismatch" []
  | .actionMismatch => taggedJson "validity" "action_mismatch" []
  | .workloadMismatch => taggedJson "validity" "workload_mismatch" []
  | .workloadIndeterminate =>
      taggedJson "validity" "workload_indeterminate" []
  | .executableMismatch => taggedJson "validity" "executable_mismatch" []
  | .expired expiredAt =>
      taggedJson "validity" "expired"
        [("expired_at", monotonicTimeJson expiredAt)]

def readIssuerInstanceId (value : JsonValue) : Option IssuerInstanceId :=
  (readString value).map IssuerInstanceId.mk

def readLeaseValidity : JsonValue → Option RecordedLeaseValidity :=
  readTagged true "validity"
    [("valid", readField "remaining" readDuration .valid),
      ("foreign_issuer",
        readField "issued_by" readIssuerInstanceId .foreignIssuer),
      ("revoked", readUnit .revoked),
      ("resource_mismatch", readUnit .resourceMismatch),
      ("action_mismatch", readUnit .actionMismatch),
      ("workload_mismatch", readUnit .workloadMismatch),
      ("workload_indeterminate", readUnit .workloadIndeterminate),
      ("executable_mismatch", readUnit .executableMismatch),
      ("expired", readField "expired_at" readMonotonicTime .expired)]

def revocationName : RevocationOutcome → String
  | .revoked => "revoked"
  | .alreadyRevoked => "already_revoked"
  | .notIssued => "not_issued"
  | .foreignIssuer => "foreign_issuer"

def readRevocation : JsonValue → Option RevocationOutcome :=
  readUnitVariant true fun name =>
    [("revoked", RevocationOutcome.revoked),
      ("already_revoked", .alreadyRevoked), ("not_issued", .notIssued),
      ("foreign_issuer", .foreignIssuer)].lookup name

def outcomeJson : RecordedOutcome → JsonValue
  | .granted leaseId expiresAt =>
      taggedJson "outcome" "granted"
        [("lease_id", leaseIdJson leaseId),
          ("expires_at", monotonicTimeJson expiresAt)]
  | .policyDenied decision =>
      taggedJson "outcome" "policy_denied"
        [("decision", policyDecisionJson decision)]
  | .peerNotAuthorizable => taggedJson "outcome" "peer_not_authorizable" []
  | .leaseIssueFailed error =>
      taggedJson "outcome" "lease_issue_failed"
        [("error", leaseErrorJson error)]
  | .enforcementRefused result =>
      taggedJson "outcome" "enforcement_refused"
        [("result", enforcementResultJson result)]
  | .backendFailed error =>
      taggedJson "outcome" "backend_failed"
        [("error", backendErrorJson error)]
  | .capacityExhausted outstanding =>
      taggedJson "outcome" "capacity_exhausted"
        [("outstanding", u64Json (UInt64.ofNat outstanding))]
  | .released revocation backend =>
      taggedJson "outcome" "released"
        [("revocation", .string (revocationName revocation)),
          ("backend", optionJson enforcementResultJson backend)]
  | .releaseRefused validity =>
      taggedJson "outcome" "release_refused"
        [("validity", leaseValidityJson validity)]
  | .releaseUnknownLease => taggedJson "outcome" "release_unknown_lease" []
  | .statusReported => taggedJson "outcome" "status_reported" []

def readGranted (value : JsonValue) : Option RecordedOutcome := do
  let fields ← fieldsOf false ["lease_id", "expires_at"] value
  let leaseId ← required readLeaseId fields "lease_id"
  let expiresAt ← required readMonotonicTime fields "expires_at"
  return .granted leaseId expiresAt

def readReleased (value : JsonValue) : Option RecordedOutcome := do
  let fields ← fieldsOf false ["revocation", "backend"] value
  let revocation ← required readRevocation fields "revocation"
  let backend ← optional readEnforcementResult fields "backend"
  return .released revocation backend

def readOutcome : JsonValue → Option RecordedOutcome :=
  readTagged false "outcome"
    [("granted", readGranted),
      ("policy_denied",
        readField "decision" readPolicyDecision .policyDenied),
      ("peer_not_authorizable", readUnit .peerNotAuthorizable),
      ("lease_issue_failed",
        readField "error" readLeaseError .leaseIssueFailed),
      ("enforcement_refused",
        readField "result" readEnforcementResult .enforcementRefused),
      ("backend_failed", readField "error" readBackendError .backendFailed),
      ("capacity_exhausted",
        readField "outstanding" readU64 fun outstanding =>
          .capacityExhausted outstanding.toNat),
      ("released", readReleased),
      ("release_refused",
        readField "validity" readLeaseValidity .releaseRefused),
      ("release_unknown_lease", readUnit .releaseUnknownLease),
      ("status_reported", readUnit .statusReported)]

/-! ## Records -/

def recordJson (record : AuditRecord) : JsonValue :=
  .object [("event_id", eventIdJson record.eventId),
    ("recorded_at", wallClockTimeJson record.recordedAt),
    ("operation", .string record.operation.name),
    ("requested", recordedRequestJson record.requested),
    ("peer", peerJson record.peer),
    ("outcome", outcomeJson record.outcome),
    ("response", agentResponseJson record.response)]

def readRecord (value : JsonValue) : Option AuditRecord := do
  let fields ← fieldsOf false ["event_id", "recorded_at", "operation",
    "requested", "peer", "outcome", "response"] value
  let eventId ← required readEventId fields "event_id"
  let recordedAt ← required readWallClockTime fields "recorded_at"
  let operation ← required readRecordedOperation fields "operation"
  let requested ← required readRecordedRequest fields "requested"
  let peer ← required readPeer fields "peer"
  let outcome ← required readOutcome fields "outcome"
  let response ← required readAgentResponse fields "response"
  return ⟨eventId, recordedAt, operation, requested, peer, outcome, response⟩

/-- A count of outstanding leases is a `usize`. -/
def RecordedOutcome.InRange : RecordedOutcome → Prop
  | .capacityExhausted outstanding => outstanding < UInt64.size
  | _ => True

/-- The codec of the audit log over the text of documents. -/
def RecordCodec.ofJson (text : JsonText) : RecordCodec where
  print envelope := .ok (text.print (versionedJson recordJson envelope))
  parseValue line :=
    match (text.parse (TextLines.encode line)).bind
        (readVersioned fun payload => some payload.merged) with
    | some envelope => .ok envelope
    | none => .error (text.errorText line)
  parseRecord line :=
    match (text.parse (TextLines.encode line)).bind
        (readVersioned readRecord) with
    | some envelope => .ok envelope
    | none => .error (text.errorText line)

end Eltanin.Audit
