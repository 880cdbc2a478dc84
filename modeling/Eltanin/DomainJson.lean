import Eltanin.DerivedReaders
import Eltanin.LeaseModel

/-!
# Domain types as documents

How the types of `eltanin-core` and `eltanin-backend` which travel in a
message or stand in a record are written and read.  None of them denies
unknown fields, apart from the duration of the standard library.
-/

namespace Eltanin.Core

open Json

/-! ## Resources and leases -/

def resourceMembers (resource : ResourceIdentity) : Members :=
  [("vendor", .string resource.vendor.tag),
    ("kind", .string resource.kind.tag),
    ("local_id", .string resource.localId)]

def resourceJson (resource : ResourceIdentity) : JsonValue :=
  .object (resourceMembers resource)

def readResource (value : JsonValue) : Option ResourceIdentity := do
  let fields ← fieldsOf false ["vendor", "kind", "local_id"] value
  let vendor ← required readString fields "vendor"
  let kind ← required readString fields "kind"
  let localId ← required readString fields "local_id"
  return ⟨⟨vendor⟩, ⟨kind⟩, localId⟩

def Action.name : Action → String
  | .compute => "compute"
  | .unknown => "unknown"

def actionJson (action : Action) : JsonValue :=
  .string action.name

/-- Every name but one is that of an unknown action. -/
def readAction : JsonValue → Option Action :=
  readUnitVariant true fun name =>
    if name = "compute" then some .compute else some .unknown

def leaseIdJson (leaseId : LeaseId) : JsonValue :=
  .object [("issuer", .string leaseId.issuer.tag),
    ("sequence", u64Json leaseId.sequence)]

def readLeaseId (value : JsonValue) : Option LeaseId := do
  let fields ← fieldsOf false ["issuer", "sequence"] value
  let issuer ← required readString fields "issuer"
  let sequence ← required readU64 fields "sequence"
  return ⟨⟨issuer⟩, sequence⟩

def Duration.asSecs (self : Duration) : UInt64 :=
  UInt64.ofNat (self.asNanos / 1000000000)

def Duration.subsecNanos (self : Duration) : UInt32 :=
  UInt32.ofNat (self.asNanos % 1000000000)

def durationJson (duration : Duration) : JsonValue :=
  .object [("secs", u64Json duration.asSecs),
    ("nanos", u32Json duration.subsecNanos)]

def Duration.ofNanos? (nanos : ℕ) : Option Duration :=
  if hrange : nanos < UInt64.size * 1000000000 then some ⟨nanos, hrange⟩
  else none

/-- The nanoseconds may exceed a second, but the sum may not overflow. -/
def Duration.ofParts? (secs : UInt64) (nanos : UInt32) : Option Duration :=
  Duration.ofNanos? (secs.toNat * 1000000000 + nanos.toNat)

def readDuration (value : JsonValue) : Option Duration := do
  let fields ← fieldsOf true ["secs", "nanos"] value
  let secs ← required readU64 fields "secs"
  let nanos ← required readU32 fields "nanos"
  Duration.ofParts? secs nanos

theorem Duration.toNat_asSecs (self : Duration) :
    self.asSecs.toNat = self.asNanos / 1000000000 := by
  have hrange := self.inRange
  rw [Nat.mul_comm] at hrange
  exact UInt64.toNat_ofNat_of_lt' (Nat.div_lt_of_lt_mul hrange)

theorem Duration.toNat_subsecNanos (self : Duration) :
    self.subsecNanos.toNat = self.asNanos % 1000000000 := by
  have hlt : self.asNanos % 1000000000 < UInt32.size := by
    simp only [UInt32.size]
    omega
  exact UInt32.toNat_ofNat_of_lt' hlt

theorem Duration.ofNanos?_asNanos (self : Duration) :
    Duration.ofNanos? self.asNanos = some self :=
  dif_pos self.inRange

@[simp] theorem Duration.ofParts?_asSecs_subsecNanos (self : Duration) :
    Duration.ofParts? self.asSecs self.subsecNanos = some self := by
  rw [Duration.ofParts?, self.toNat_asSecs, self.toNat_subsecNanos,
    Nat.div_add_mod', Duration.ofNanos?_asNanos]

@[simp] theorem readResource_resourceJson (resource : ResourceIdentity) :
    readResource (resourceJson resource) = some resource := by
  simp [readResource, resourceJson, resourceMembers]

@[simp] theorem readAction_actionJson (action : Action) :
    readAction (actionJson action) = some action := by
  cases action <;> rfl

@[simp] theorem readLeaseId_leaseIdJson (leaseId : LeaseId) :
    readLeaseId (leaseIdJson leaseId) = some leaseId := by
  simp [readLeaseId, leaseIdJson]

@[simp] theorem readDuration_durationJson (duration : Duration) :
    readDuration (durationJson duration) = some duration := by
  have hfields : fieldsOf true ["secs", "nanos"] (durationJson duration) =
      some [("secs", u64Json duration.asSecs),
        ("nanos", u32Json duration.subsecNanos)] :=
    fieldsOf_object rfl (by simp)
  rw [readDuration, hfields]
  simp only [Option.bind_eq_bind, Option.bind_some, required_cons_self,
    readU64_u64Json]
  rw [required_cons_of_ne (by simp), required_cons_self, readU32_u32Json,
    Option.bind_some, Duration.ofParts?_asSecs_subsecNanos]

/-! ## Observed identity -/

def EvidenceSource.name : EvidenceSource → String
  | .kernelObserved => "kernel_observed"
  | .bestEffort => "best_effort"
  | .selfAsserted => "self_asserted"

def readEvidenceSource : JsonValue → Option EvidenceSource :=
  readUnitVariant true fun name =>
    [("kernel_observed", .kernelObserved), ("best_effort", .bestEffort),
      ("self_asserted", .selfAsserted)].lookup name

def evidenceJson {α : Type} (json : α → JsonValue) : Evidence α → JsonValue
  | .present value source =>
      taggedJson "state" "present"
        [("value", json value), ("source", .string source.name)]
  | .missing reason =>
      taggedJson "state" "missing" [("reason", .string reason)]
  | .unsupported => taggedJson "state" "unsupported" []

def readPresent {α : Type} (read : JsonValue → Option α)
    (value : JsonValue) : Option (Evidence α) := do
  let fields ← fieldsOf false ["value", "source"] value
  let content ← required read fields "value"
  let source ← required readEvidenceSource fields "source"
  return .present content source

def readEvidence {α : Type} (buffered : Bool) (read : JsonValue → Option α) :
    JsonValue → Option (Evidence α) :=
  readTagged buffered "state"
    [("present", readPresent read),
      ("missing", readField "reason" readString .missing),
      ("unsupported", readUnit .unsupported)]

def startTokenJson (start : ProcessStartToken) : JsonValue :=
  u64Json start.token

def readStartToken (value : JsonValue) : Option ProcessStartToken :=
  (readU64 value).map ProcessStartToken.mk

def textEvidenceJson : Evidence String → JsonValue :=
  evidenceJson .string

def readTextEvidence : JsonValue → Option (Evidence String) :=
  readEvidence false readString

def ancestorJson (ancestor : ProcessAncestor) : JsonValue :=
  .object [("pid", u32Json ancestor.pid),
    ("start", evidenceJson startTokenJson ancestor.start),
    ("executable_path", textEvidenceJson ancestor.executablePath)]

def readAncestor (value : JsonValue) : Option ProcessAncestor := do
  let fields ← fieldsOf false ["pid", "start", "executable_path"] value
  let pid ← required readU32 fields "pid"
  let start ← required (readEvidence false readStartToken) fields "start"
  let executablePath ← required readTextEvidence fields "executable_path"
  return ⟨pid, start, executablePath⟩

def workloadJson (workload : WorkloadIdentity) : JsonValue :=
  .object [("pid", u32Json workload.pid),
    ("process_start", evidenceJson startTokenJson workload.processStart),
    ("uid", evidenceJson u32Json workload.uid),
    ("gid", evidenceJson u32Json workload.gid),
    ("executable_path", textEvidenceJson workload.executablePath),
    ("executable_hash", textEvidenceJson workload.executableHash),
    ("ancestry", vectorJson ancestorJson workload.ancestry)]

def readWorkload (value : JsonValue) : Option WorkloadIdentity := do
  let fields ← fieldsOf false ["pid", "process_start", "uid", "gid",
    "executable_path", "executable_hash", "ancestry"] value
  let pid ← required readU32 fields "pid"
  let processStart ←
    required (readEvidence false readStartToken) fields "process_start"
  let uid ← required (readEvidence false readU32) fields "uid"
  let gid ← required (readEvidence false readU32) fields "gid"
  let executablePath ← required readTextEvidence fields "executable_path"
  let executableHash ← required readTextEvidence fields "executable_hash"
  let ancestry ← required (readVector readAncestor) fields "ancestry"
  return ⟨pid, processStart, uid, gid, executablePath, executableHash,
    ancestry⟩

def contextJson (context : ExecutionContext) : JsonValue :=
  .object [("workload", workloadJson context.workload),
    ("cgroup_path", textEvidenceJson context.cgroupPath),
    ("namespace_hint", textEvidenceJson context.namespaceHint),
    ("container_hint", textEvidenceJson context.containerHint),
    ("session_origin", textEvidenceJson context.sessionOrigin)]

def readContext (value : JsonValue) : Option ExecutionContext := do
  let fields ← fieldsOf false ["workload", "cgroup_path", "namespace_hint",
    "container_hint", "session_origin"] value
  let workload ← required readWorkload fields "workload"
  let cgroupPath ← required readTextEvidence fields "cgroup_path"
  let namespaceHint ← required readTextEvidence fields "namespace_hint"
  let containerHint ← required readTextEvidence fields "container_hint"
  let sessionOrigin ← required readTextEvidence fields "session_origin"
  return ⟨workload, cgroupPath, namespaceHint, containerHint, sessionOrigin⟩

@[simp] theorem readEvidenceSource_name (source : EvidenceSource) :
    readEvidenceSource (.string source.name) = some source := by
  cases source <;> rfl

theorem readEvidence_evidenceJson {α : Type} {buffered : Bool}
    {read : JsonValue → Option α} {json : α → JsonValue}
    (hread : ∀ value, read (json value) = some value)
    (evidence : Evidence α) :
    readEvidence buffered read (evidenceJson json evidence) =
      some evidence := by
  unfold readEvidence evidenceJson
  cases evidence <;> simp [readPresent, readUnit, hread]

@[simp] theorem readTextEvidence_textEvidenceJson
    (evidence : Evidence String) :
    readTextEvidence (textEvidenceJson evidence) = some evidence :=
  readEvidence_evidenceJson readString_string evidence

@[simp] theorem readEvidence_u32 (buffered : Bool)
    (evidence : Evidence UInt32) :
    readEvidence buffered readU32 (evidenceJson u32Json evidence) =
      some evidence :=
  readEvidence_evidenceJson readU32_u32Json evidence

@[simp] theorem readStartToken_startTokenJson (start : ProcessStartToken) :
    readStartToken (startTokenJson start) = some start := rfl

@[simp] theorem readEvidence_startToken
    (evidence : Evidence ProcessStartToken) :
    readEvidence false readStartToken (evidenceJson startTokenJson evidence) =
      some evidence :=
  readEvidence_evidenceJson readStartToken_startTokenJson evidence

@[simp] theorem readAncestor_ancestorJson (ancestor : ProcessAncestor) :
    readAncestor (ancestorJson ancestor) = some ancestor := by
  simp [readAncestor, ancestorJson]

@[simp] theorem readWorkload_workloadJson (workload : WorkloadIdentity) :
    readWorkload (workloadJson workload) = some workload := by
  have hancestry : readVector readAncestor
      (vectorJson ancestorJson workload.ancestry) = some workload.ancestry :=
    readVector_vectorJson fun ancestor _ =>
      readAncestor_ancestorJson ancestor
  simp [readWorkload, workloadJson, hancestry]

@[simp] theorem readContext_contextJson (context : ExecutionContext) :
    readContext (contextJson context) = some context := by
  simp [readContext, contextJson]

/-! ## Enforcement -/

def Capability.name : Capability → String
  | .discoverResource => "discover_resource"
  | .observeResource => "observe_resource"
  | .observeWorkload => "observe_workload"
  | .attributeWorkload => "attribute_workload"
  | .authorize => "authorize"
  | .controlledLaunch => "controlled_launch"
  | .deviceEnforce => "device_enforce"
  | .deviceRevoke => "device_revoke"
  | .attest => "attest"

def readCapability : JsonValue → Option Capability :=
  readUnitVariant true fun name =>
    [("discover_resource", .discoverResource),
      ("observe_resource", .observeResource),
      ("observe_workload", .observeWorkload),
      ("attribute_workload", .attributeWorkload), ("authorize", .authorize),
      ("controlled_launch", .controlledLaunch),
      ("device_enforce", .deviceEnforce), ("device_revoke", .deviceRevoke),
      ("attest", .attest)].lookup name

def enforcementResultJson : EnforcementResult → JsonValue
  | .allowed => taggedJson "outcome" "allowed" []
  | .denied reason =>
      taggedJson "outcome" "denied" [("reason", .string reason)]
  | .unsupported capability =>
      taggedJson "outcome" "unsupported"
        [("capability", .string capability.name)]
  | .error message =>
      taggedJson "outcome" "error" [("message", .string message)]

def readEnforcementResult : JsonValue → Option EnforcementResult :=
  readTagged true "outcome"
    [("allowed", readUnit .allowed),
      ("denied", readField "reason" readString .denied),
      ("unsupported", readField "capability" readCapability .unsupported),
      ("error", readField "message" readString .error)]

@[simp] theorem readCapability_name (capability : Capability) :
    readCapability (.string capability.name) = some capability := by
  cases capability <;> rfl

@[simp] theorem readEnforcementResult_enforcementResultJson
    (result : EnforcementResult) :
    readEnforcementResult (enforcementResultJson result) = some result := by
  unfold readEnforcementResult enforcementResultJson
  cases result <;> simp [readUnit]

end Eltanin.Core

namespace Eltanin.Backend

open Json Eltanin.Core

def backendErrorJson : BackendError → JsonValue
  | .unsupported capability =>
      taggedJson "kind" "unsupported" [("capability", .string capability.name)]
  | .unavailable resource =>
      taggedJson "kind" "unavailable" [("resource", resourceJson resource)]
  | .permissionDenied => taggedJson "kind" "permission_denied" []
  | .transient message =>
      taggedJson "kind" "transient" [("message", .string message)]
  | .invariant message =>
      taggedJson "kind" "invariant" [("message", .string message)]

def readBackendError : JsonValue → Option BackendError :=
  readTagged true "kind"
    [("unsupported", readField "capability" readCapability .unsupported),
      ("unavailable", readField "resource" readResource .unavailable),
      ("permission_denied", readUnit .permissionDenied),
      ("transient", readField "message" readString .transient),
      ("invariant", readField "message" readString .invariant)]

@[simp] theorem readBackendError_backendErrorJson (error : BackendError) :
    readBackendError (backendErrorJson error) = some error := by
  unfold readBackendError backendErrorJson
  cases error <;> simp [readUnit]

end Eltanin.Backend
