import Eltanin.DomainJson
import Eltanin.FramingModel

/-!
# Messages as documents

The derived readers and writers of `eltanin-protocol`.  Requests deny unknown
fields, apart from their envelope, the resource and the lease id; responses
do not.  The content of a request variant stands beside its tag.
-/

namespace Eltanin.Core

open Json

def versionedJson {α : Type} (json : α → JsonValue) (envelope : Versioned α) :
    JsonValue :=
  .object [("version", u16Json envelope.version),
    ("payload", json envelope.payload)]

def readVersioned {α : Type} (read : JsonValue → Option α)
    (value : JsonValue) : Option (Versioned α) := do
  let fields ← fieldsOf false ["version", "payload"] value
  let version ← required readU16 fields "version"
  let payload ← required read fields "payload"
  return ⟨version, payload⟩

theorem readVersioned_versionedJson {α : Type} {read : JsonValue → Option α}
    {json : α → JsonValue} {envelope : Versioned α}
    (hread : read (json envelope.payload) = some envelope.payload) :
    readVersioned read (versionedJson json envelope) = some envelope := by
  simp [readVersioned, versionedJson, hread]

end Eltanin.Core

namespace Eltanin.Protocol

open Json Eltanin.Core

/-! ## Requests -/

def leaseRequestMembers (request : LeaseRequest) : Members :=
  [("resource", resourceJson request.resource),
    ("action", actionJson request.action)]

def readLeaseRequest (value : JsonValue) : Option LeaseRequest := do
  let fields ← fieldsOf true ["resource", "action"] value
  let resource ← required readResource fields "resource"
  let action ← required readAction fields "action"
  return ⟨resource, action⟩

def releaseRequestMembers (request : ReleaseRequest) : Members :=
  [("lease_id", leaseIdJson request.leaseId)]

def readReleaseRequest (value : JsonValue) : Option ReleaseRequest := do
  let fields ← fieldsOf true ["lease_id"] value
  let leaseId ← required readLeaseId fields "lease_id"
  return ⟨leaseId⟩

def clientRequestJson : ClientRequest → JsonValue
  | .requestLease request =>
      taggedJson "op" "request_lease" (leaseRequestMembers request)
  | .releaseLease request =>
      taggedJson "op" "release_lease" (releaseRequestMembers request)
  | .agentStatus => taggedJson "op" "agent_status" []

/-- A variant with an empty set of fields, which nothing may stand beside. -/
def readAgentStatus (value : JsonValue) : Option ClientRequest := do
  let _ ← fieldsOf true [] value
  return .agentStatus

def readClientRequest : JsonValue → Option ClientRequest :=
  readTagged false "op"
    [("request_lease",
        fun content => (readLeaseRequest content).map .requestLease),
      ("release_lease",
        fun content => (readReleaseRequest content).map .releaseLease),
      ("agent_status", readAgentStatus)]

def requestBodyJson (body : RequestBody) : JsonValue :=
  .object [("request_id", u64Json body.requestId.id),
    ("body", clientRequestJson body.body)]

def readRequestId (value : JsonValue) : Option RequestId :=
  (readU64 value).map RequestId.mk

def readRequestBody (value : JsonValue) : Option RequestBody := do
  let fields ← fieldsOf true ["request_id", "body"] value
  let requestId ← required readRequestId fields "request_id"
  let body ← required readClientRequest fields "body"
  return ⟨requestId, body⟩

def requestJson (request : Request) : JsonValue :=
  versionedJson requestBodyJson request

def readRequest (value : JsonValue) : Option Request :=
  readVersioned readRequestBody value

/-! ## Responses -/

def leaseViewJson (lease : LeaseView) : JsonValue :=
  .object [("lease_id", leaseIdJson lease.leaseId),
    ("remaining", durationJson lease.remaining)]

def readLeaseView (value : JsonValue) : Option LeaseView := do
  let fields ← fieldsOf false ["lease_id", "remaining"] value
  let leaseId ← required readLeaseId fields "lease_id"
  let remaining ← required readDuration fields "remaining"
  return ⟨leaseId, remaining⟩

def DenialReason.name : DenialReason → String
  | .noMatchingRule => "no_matching_rule"
  | .explicitDeny => "explicit_deny"
  | .indeterminateEvidence => "indeterminate_evidence"

def readDenialReason : JsonValue → Option DenialReason :=
  readUnitVariant true fun name =>
    [("no_matching_rule", .noMatchingRule), ("explicit_deny", .explicitDeny),
      ("indeterminate_evidence", .indeterminateEvidence)].lookup name

def ReleaseOutcome.name : ReleaseOutcome → String
  | .released => "released"
  | .refused => "refused"

def readReleaseOutcome : JsonValue → Option ReleaseOutcome :=
  readUnitVariant true fun name =>
    [("released", .released), ("refused", .refused)].lookup name

def statusViewJson (status : AgentStatusView) : JsonValue :=
  .object [("protocol_version", u16Json status.protocolVersion)]

def readStatusView (value : JsonValue) : Option AgentStatusView := do
  let fields ← fieldsOf false ["protocol_version"] value
  let protocolVersion ← required readU16 fields "protocol_version"
  return ⟨protocolVersion⟩

def errorCodeJson : ErrorCode → JsonValue
  | .unsupportedVersion found expected =>
      taggedJson "error" "unsupported_version"
        [("found", u16Json found), ("expected", u16Json expected)]
  | .malformedRequest => taggedJson "error" "malformed_request" []
  | .oversized => taggedJson "error" "oversized" []
  | .unknownOperation => taggedJson "error" "unknown_operation" []
  | .internal => taggedJson "error" "internal" []

def readUnsupportedVersion (value : JsonValue) : Option ErrorCode := do
  let fields ← fieldsOf false ["found", "expected"] value
  let found ← required readU16 fields "found"
  let expected ← required readU16 fields "expected"
  return .unsupportedVersion found expected

def readErrorCode : JsonValue → Option ErrorCode :=
  readTagged true "error"
    [("unsupported_version", readUnsupportedVersion),
      ("malformed_request", readUnit .malformedRequest),
      ("oversized", readUnit .oversized),
      ("unknown_operation", readUnit .unknownOperation),
      ("internal", readUnit .internal)]

def agentResponseJson : AgentResponse → JsonValue
  | .leaseGranted lease =>
      taggedJson "result" "lease_granted" [("lease", leaseViewJson lease)]
  | .leaseDenied reason =>
      taggedJson "result" "lease_denied" [("reason", .string reason.name)]
  | .leaseReleased outcome =>
      taggedJson "result" "lease_released"
        [("outcome", .string outcome.name)]
  | .status status =>
      taggedJson "result" "status" [("status", statusViewJson status)]
  | .error code =>
      taggedJson "result" "error" [("code", errorCodeJson code)]

def readAgentResponse : JsonValue → Option AgentResponse :=
  readTagged false "result"
    [("lease_granted", readField "lease" readLeaseView .leaseGranted),
      ("lease_denied", readField "reason" readDenialReason .leaseDenied),
      ("lease_released",
        readField "outcome" readReleaseOutcome .leaseReleased),
      ("status", readField "status" readStatusView .status),
      ("error", readField "code" readErrorCode .error)]

def responseBodyJson (body : ResponseBody) : JsonValue :=
  .object [
    ("request_id",
      optionJson (fun requestId => u64Json requestId.id) body.requestId),
    ("body", agentResponseJson body.body)]

def readResponseBody (value : JsonValue) : Option ResponseBody := do
  let fields ← fieldsOf false ["request_id", "body"] value
  let requestId ← optional readRequestId fields "request_id"
  let body ← required readAgentResponse fields "body"
  return ⟨requestId, body⟩

def responseJson (response : Response) : JsonValue :=
  versionedJson responseBodyJson response

def readResponse (value : JsonValue) : Option Response :=
  readVersioned readResponseBody value

/-! ## Peeks -/

def readVersionPeek (value : JsonValue) : Option UInt16 := do
  let fields ← fieldsOf false ["version"] value
  required readU16 fields "version"

def readHeaderPayloadPeek (value : JsonValue) : Option RequestId := do
  let fields ← fieldsOf false ["request_id"] value
  required readRequestId fields "request_id"

def readHeaderPeek (value : JsonValue) : Option RequestId := do
  let fields ← fieldsOf false ["payload"] value
  required readHeaderPayloadPeek fields "payload"

/-- The codec of the protocol over the text of documents. -/
def ProtocolCodec.ofJson (text : JsonText) : ProtocolCodec where
  printRequest request := TextLines.encode (text.print (requestJson request))
  printResponse response :=
    TextLines.encode (text.print (responseJson response))
  parseVersion body := (text.parse body).bind readVersionPeek
  parseRequestId body := (text.parse body).bind readHeaderPeek
  parseRequest body := (text.parse body).bind readRequest
  parseResponse body := (text.parse body).bind readResponse

/-! ## Reading back -/

@[simp] theorem readLeaseRequest_leaseRequestMembers
    (request : LeaseRequest) :
    readLeaseRequest (.object (leaseRequestMembers request)) =
      some request := by
  simp [readLeaseRequest, leaseRequestMembers]

@[simp] theorem readReleaseRequest_releaseRequestMembers
    (request : ReleaseRequest) :
    readReleaseRequest (.object (releaseRequestMembers request)) =
      some request := by
  simp [readReleaseRequest, releaseRequestMembers]

@[simp] theorem readClientRequest_clientRequestJson
    (request : ClientRequest) :
    readClientRequest (clientRequestJson request) = some request := by
  unfold readClientRequest clientRequestJson
  cases request with
  | requestLease request =>
      rw [readTagged_taggedJson (by simp [leaseRequestMembers])]
      simp
  | releaseLease request =>
      rw [readTagged_taggedJson (by simp [releaseRequestMembers])]
      simp
  | agentStatus =>
      rw [readTagged_taggedJson (by simp)]
      simp [readAgentStatus]

@[simp] theorem readRequestBody_requestBodyJson (body : RequestBody) :
    readRequestBody (requestBodyJson body) = some body := by
  simp [readRequestBody, requestBodyJson, readRequestId]

@[simp] theorem readRequest_requestJson (request : Request) :
    readRequest (requestJson request) = some request :=
  readVersioned_versionedJson (readRequestBody_requestBodyJson _)

@[simp] theorem readLeaseView_leaseViewJson (lease : LeaseView) :
    readLeaseView (leaseViewJson lease) = some lease := by
  simp [readLeaseView, leaseViewJson]

@[simp] theorem readDenialReason_name (reason : DenialReason) :
    readDenialReason (.string reason.name) = some reason := by
  cases reason <;> rfl

@[simp] theorem readReleaseOutcome_name (outcome : ReleaseOutcome) :
    readReleaseOutcome (.string outcome.name) = some outcome := by
  cases outcome <;> rfl

@[simp] theorem readStatusView_statusViewJson (status : AgentStatusView) :
    readStatusView (statusViewJson status) = some status := by
  simp [readStatusView, statusViewJson]

@[simp] theorem readErrorCode_errorCodeJson (code : ErrorCode) :
    readErrorCode (errorCodeJson code) = some code := by
  unfold readErrorCode errorCodeJson
  cases code <;> simp [readUnsupportedVersion, readUnit]

@[simp] theorem readAgentResponse_agentResponseJson
    (response : AgentResponse) :
    readAgentResponse (agentResponseJson response) = some response := by
  unfold readAgentResponse agentResponseJson
  cases response <;> simp

@[simp] theorem readResponseBody_responseBodyJson (body : ResponseBody) :
    readResponseBody (responseBodyJson body) = some body := by
  have hrequestId : optional readRequestId
      [("request_id",
          optionJson (fun requestId => u64Json requestId.id) body.requestId),
        ("body", agentResponseJson body.body)] "request_id" =
      some body.requestId := by
    apply optional_optionJson List.lookup_cons_self
    · intro requestId
      rfl
    · intro requestId heq
      contradiction
  simp [readResponseBody, responseBodyJson, hrequestId]

@[simp] theorem readResponse_responseJson (response : Response) :
    readResponse (responseJson response) = some response :=
  readVersioned_versionedJson (readResponseBody_responseBodyJson _)

/-- The version is looked at alone, whatever else the object has. -/
theorem readVersionPeek_of_single {members : Members} {version : UInt16}
    (hsingle : members.filter (fun member => member.1 = "version") =
      [("version", u16Json version)]) :
    readVersionPeek (.object members) = some version := by
  simp [readVersionPeek, fieldsOf_single hsingle, required,
    lookup_of_single hsingle]

theorem readVersionPeek_versionedJson {α : Type} {json : α → JsonValue}
    (envelope : Versioned α) :
    readVersionPeek (versionedJson json envelope) = some envelope.version :=
  readVersionPeek_of_single rfl

end Eltanin.Protocol
