import Eltanin.DocumentShapes
import Eltanin.WireRoundTrip

/-!
# What the request decoder accepts

The schema of a request is stated once, over the shape which an object must
have: exactly the members of a list for the schema as it is meant, or what a
derived struct takes for them.  The decoder accepts the second.  It fails
closed on every other document, and the two differ on the documents which
only the second admits.
-/

namespace Eltanin.Protocol

open Json Eltanin.Core TextLines

/-! ## The schema -/

section Schema

variable (shape : Bool → Members → JsonValue → Prop)
  (action : JsonValue → Prop)

def ResourceSchema (value : JsonValue) : Prop :=
  ∃ vendor kind localId : String, shape false
    [("vendor", .string vendor), ("kind", .string kind),
      ("local_id", .string localId)] value

def LeaseIdSchema (value : JsonValue) : Prop :=
  ∃ (issuer : String) (sequence : UInt64), shape false
    [("issuer", .string issuer), ("sequence", u64Json sequence)] value

inductive ClientRequestSchema (value : JsonValue) : Prop where
  | requestLease {resource asked : JsonValue}
      (hshape : shape true [("op", .string "request_lease"),
        ("resource", resource), ("action", asked)] value)
      (hresource : ResourceSchema shape resource)
      (haction : action asked)
  | releaseLease {leaseId : JsonValue}
      (hshape : shape true [("op", .string "release_lease"),
        ("lease_id", leaseId)] value)
      (hleaseId : LeaseIdSchema shape leaseId)
  | agentStatus (hshape : shape true [("op", .string "agent_status")] value)

def RequestBodySchema (value : JsonValue) : Prop :=
  ∃ (requestId : UInt64) (body : JsonValue),
    shape true [("request_id", u64Json requestId), ("body", body)] value ∧
      ClientRequestSchema shape action body

def RequestSchema (value : JsonValue) : Prop :=
  ∃ payload, shape false [("version", u16Json domainSchemaVersion),
      ("payload", payload)] value ∧
    RequestBodySchema shape action payload

end Schema

def IsName (value : JsonValue) : Prop :=
  ∃ name, value = .string name

/-- The documents which are requests, member by member. -/
def IsRequest (value : JsonValue) : Prop :=
  RequestSchema (fun _ => ExactObject) IsName value

/-- A name, or an object of a name and nothing. -/
inductive TakenAction : JsonValue → Prop where
  | name (name : String) : TakenAction (.string name)
  | null (name : String) : TakenAction (.object [(name, .null)])
  | empty (name : String) : TakenAction (.object [(name, .object [])])

/-- The documents which the derived readers take for a request.  An array of
the two members of the envelope has no version to look at. -/
def TakenForRequest (value : JsonValue) : Prop :=
  (∃ members, value = .object members) ∧
    RequestSchema Carries TakenAction value

/-- An object whose only member `version` is this one. -/
def VersionMember (value : JsonValue) (version : UInt16) : Prop :=
  ∃ members, value = .object members ∧
    members.filter (fun member => member.1 = "version") =
      [("version", u16Json version)]

/-- What a body of this document is promised to come to. -/
structure FailsClosed (value : JsonValue)
    (decoded : Except ProtocolError Request) : Prop where
  accepts : (∃ request, decoded = .ok request) ↔ IsRequest value
  refuses : ¬IsRequest value →
    (∀ version, VersionMember value version →
      version ≠ domainSchemaVersion →
        decoded = .error (.version ⟨version, domainSchemaVersion⟩)) ∧
    ((∀ version, VersionMember value version →
      version = domainSchemaVersion) → decoded = .error .malformed)

/-! ## Shapes of the schema -/

section Shapes

variable {shape shape' : Bool → Members → JsonValue → Prop}
  {action action' : JsonValue → Prop} {value : JsonValue}

theorem ClientRequestSchema.mono
    (hshape : ∀ {deny fields value}, shape deny fields value →
      shape' deny fields value)
    (haction : ∀ {value}, action value → action' value)
    (hschema : ClientRequestSchema shape action value) :
    ClientRequestSchema shape' action' value := by
  cases hschema with
  | requestLease hobject hresource hasked =>
      rcases hresource with ⟨vendor, kind, localId, hresource⟩
      exact .requestLease (hshape hobject)
        ⟨vendor, kind, localId, hshape hresource⟩ (haction hasked)
  | releaseLease hobject hleaseId =>
      rcases hleaseId with ⟨issuer, sequence, hleaseId⟩
      exact .releaseLease (hshape hobject)
        ⟨issuer, sequence, hshape hleaseId⟩
  | agentStatus hobject => exact .agentStatus (hshape hobject)

theorem RequestSchema.mono
    (hshape : ∀ {deny fields value}, shape deny fields value →
      shape' deny fields value)
    (haction : ∀ {value}, action value → action' value)
    (hschema : RequestSchema shape action value) :
    RequestSchema shape' action' value := by
  rcases hschema with ⟨payload, henvelope, requestId, body, hpayload, hbody⟩
  exact ⟨payload, hshape henvelope, requestId, body, hshape hpayload,
    hbody.mono hshape haction⟩

theorem IsRequest.takenForRequest (hrequest : IsRequest value) :
    TakenForRequest value := by
  constructor
  · rcases hrequest with ⟨payload, ⟨members, heq, -⟩, -⟩
    exact ⟨members, heq⟩
  · apply hrequest.mono Carries.of_exactObject
    intro asked hasked
    rcases hasked with ⟨name, heq⟩
    rw [heq]
    exact .name name

end Shapes

/-! ## What the readers take -/

section Readers

variable {value : JsonValue}

theorem readResource_iff :
    (∃ resource, readResource value = some resource) ↔
      ResourceSchema Carries value := by
  constructor
  · intro hread
    rcases hread with ⟨resource, hread⟩
    simp only [readResource, Option.bind_eq_bind, Option.bind_eq_some_iff,
      required_eq_some_iff, readString_eq_some_iff] at hread
    rcases hread with ⟨found, hfields, vendor, ⟨-, hvendor, rfl⟩, kind,
      ⟨-, hkind, rfl⟩, localId, ⟨-, hlocalId, rfl⟩, -⟩
    refine ⟨vendor, kind, localId,
      (carries_iff (by simp)).mpr ⟨found, hfields, ?_⟩⟩
    simp [hvendor, hkind, hlocalId]
  · intro hschema
    rcases hschema with ⟨vendor, kind, localId, hshape⟩
    rcases (carries_iff (by simp)).mp hshape with ⟨found, hfields, hfound⟩
    simp only [List.map_cons, List.map_nil] at hfields
    simp only [List.forall_mem_cons] at hfound
    simp [readResource, hfields, required, hfound]

theorem readLeaseId_iff :
    (∃ leaseId, readLeaseId value = some leaseId) ↔
      LeaseIdSchema Carries value := by
  have hpair : (∃ leaseId, readLeaseId value = some leaseId) ↔ _ :=
    exists_required_pair_iff (by simp)
  rw [hpair]
  constructor
  · intro hread
    rcases hread with ⟨left, right, hshape, ⟨issuer, hissuer⟩, sequence,
      hsequence⟩
    rw [readString_eq_some_iff.mp hissuer,
      readU64_eq_some_iff.mp hsequence] at hshape
    exact ⟨issuer, sequence, hshape⟩
  · intro hschema
    rcases hschema with ⟨issuer, sequence, hshape⟩
    exact ⟨_, _, hshape, ⟨issuer, rfl⟩, sequence, readU64_u64Json sequence⟩

theorem readAction_iff :
    (∃ action, readAction value = some action) ↔ TakenAction value := by
  have hnamed : ∀ name : String, ∃ action,
      (if name = "compute" then some Action.compute else some .unknown) =
        some action := by
    intro name
    split
    · exact ⟨_, rfl⟩
    · exact ⟨_, rfl⟩
  constructor
  · intro hread
    rcases hread with ⟨action, hread⟩
    unfold readAction readUnitVariant at hread
    split at hread
    next name => exact .name name
    next name => exact .null name
    next name => exact .empty name
    next => contradiction
  · intro htaken
    cases htaken with
    | name name => exact hnamed name
    | null name => exact hnamed name
    | empty name => exact hnamed name

theorem readLeaseRequest_iff :
    (∃ request, readLeaseRequest value = some request) ↔
      ∃ resource asked,
        Carries true [("resource", resource), ("action", asked)] value ∧
          ResourceSchema Carries resource ∧ TakenAction asked := by
  have hpair : (∃ request, readLeaseRequest value = some request) ↔ _ :=
    exists_required_pair_iff (by simp)
  simp only [hpair, readResource_iff, readAction_iff]

theorem readReleaseRequest_iff :
    (∃ request, readReleaseRequest value = some request) ↔
      ∃ leaseId, Carries true [("lease_id", leaseId)] value ∧
        LeaseIdSchema Carries leaseId := by
  constructor
  · intro hread
    rcases hread with ⟨request, hread⟩
    simp only [readReleaseRequest, Option.bind_eq_bind,
      Option.bind_eq_some_iff, required_eq_some_iff] at hread
    rcases hread with ⟨found, hfields, leaseId, ⟨document, hdocument,
      hleaseId⟩, -⟩
    refine ⟨document, (carries_iff (by simp)).mpr ⟨found, hfields, ?_⟩,
      readLeaseId_iff.mp ⟨leaseId, hleaseId⟩⟩
    simp [hdocument]
  · intro hschema
    rcases hschema with ⟨document, hshape, hleaseId⟩
    rcases (carries_iff (by simp)).mp hshape with ⟨found, hfields, hfound⟩
    rcases readLeaseId_iff.mpr hleaseId with ⟨leaseId, hleaseId⟩
    simp only [List.map_cons, List.map_nil] at hfields
    simp only [List.forall_mem_cons] at hfound
    simp [readReleaseRequest, hfields, required, hfound, hleaseId]

theorem readAgentStatus_iff :
    (∃ request, readAgentStatus value = some request) ↔
      Carries true [] value := by
  rw [carries_iff (by simp)]
  simp [readAgentStatus, Option.bind_eq_some_iff]

/-- A variant is selected by the name under the tag, and reads the rest. -/
theorem readClientRequest_eq_some_iff {request : ClientRequest} :
    readClientRequest value = some request ↔
      ∃ name content, taggedContent "op" value = some (.string name, content) ∧
        ((name = "request_lease" ∧ ∃ lease,
            readLeaseRequest content = some lease ∧
              request = .requestLease lease) ∨
          (name = "release_lease" ∧ ∃ release,
            readReleaseRequest content = some release ∧
              request = .releaseLease release) ∨
          (name = "agent_status" ∧ readAgentStatus content = some request))
    := by
  constructor
  · intro hread
    simp only [readClientRequest, readTagged, Option.bind_eq_some_iff]
      at hread
    rcases hread with ⟨⟨tag, content⟩, htagged, read, hselect, hread⟩
    unfold selectVariant at hselect
    split at hselect
    next name htag =>
      have htag : tag = .string name := htag
      rw [htag] at htagged
      refine ⟨name, content, htagged, ?_⟩
      have hmem := mem_of_lookup hselect
      simp only [List.mem_cons, List.not_mem_nil, or_false, Prod.mk.injEq]
        at hmem
      rcases hmem with ⟨hname, hvariant⟩ | ⟨hname, hvariant⟩
        | ⟨hname, hvariant⟩
      · rw [hvariant, Option.map_eq_some_iff] at hread
        rcases hread with ⟨lease, hlease, heq⟩
        exact .inl ⟨hname, lease, hlease, heq.symm⟩
      · rw [hvariant, Option.map_eq_some_iff] at hread
        rcases hread with ⟨release, hrelease, heq⟩
        exact .inr (.inl ⟨hname, release, hrelease, heq.symm⟩)
      · rw [hvariant] at hread
        exact .inr (.inr ⟨hname, hread⟩)
    next => simp at hselect
    next => contradiction
  · intro hvariants
    rcases hvariants with ⟨name, content, htagged, hvariant⟩
    rw [readClientRequest, readTagged, htagged, Option.bind_some]
    rcases hvariant with ⟨rfl, lease, hlease, rfl⟩
      | ⟨rfl, release, hrelease, rfl⟩ | ⟨rfl, hstatus⟩
    · simp [selectVariant, hlease]
    · simp [selectVariant, hrelease]
    · simp [selectVariant, hstatus]

theorem readClientRequest_iff :
    (∃ request, readClientRequest value = some request) ↔
      ClientRequestSchema Carries TakenAction value := by
  constructor
  · intro hread
    rcases hread with ⟨request, hread⟩
    rcases readClientRequest_eq_some_iff.mp hread with
      ⟨name, content, htagged, hvariant⟩
    rcases hvariant with ⟨rfl, lease, hlease, -⟩ | ⟨rfl, release, hrelease, -⟩
      | ⟨rfl, hstatus⟩
    · rcases readLeaseRequest_iff.mp ⟨lease, hlease⟩ with
        ⟨resource, asked, hshape, hresource, hasked⟩
      exact .requestLease
        ((carries_tag_iff (by simp)).mpr ⟨content, htagged, hshape⟩)
        hresource hasked
    · rcases readReleaseRequest_iff.mp ⟨release, hrelease⟩ with
        ⟨leaseId, hshape, hleaseId⟩
      exact .releaseLease
        ((carries_tag_iff (by simp)).mpr ⟨content, htagged, hshape⟩) hleaseId
    · have hshape := readAgentStatus_iff.mp ⟨request, hstatus⟩
      exact .agentStatus
        ((carries_tag_iff (by simp)).mpr ⟨content, htagged, hshape⟩)
  · intro hschema
    cases hschema with
    | requestLease hshape hresource hasked =>
        rcases (carries_tag_iff (by simp)).mp hshape with
          ⟨content, htagged, hcontent⟩
        rcases readLeaseRequest_iff.mpr ⟨_, _, hcontent, hresource, hasked⟩
          with ⟨lease, hlease⟩
        exact ⟨_, readClientRequest_eq_some_iff.mpr
          ⟨_, content, htagged, .inl ⟨rfl, lease, hlease, rfl⟩⟩⟩
    | releaseLease hshape hleaseId =>
        rcases (carries_tag_iff (by simp)).mp hshape with
          ⟨content, htagged, hcontent⟩
        rcases readReleaseRequest_iff.mpr ⟨_, hcontent, hleaseId⟩ with
          ⟨release, hrelease⟩
        exact ⟨_, readClientRequest_eq_some_iff.mpr
          ⟨_, content, htagged, .inr (.inl ⟨rfl, release, hrelease, rfl⟩)⟩⟩
    | agentStatus hshape =>
        rcases (carries_tag_iff (by simp)).mp hshape with
          ⟨content, htagged, hcontent⟩
        rcases readAgentStatus_iff.mpr hcontent with ⟨request, hrequest⟩
        exact ⟨request, readClientRequest_eq_some_iff.mpr
          ⟨_, content, htagged, .inr (.inr ⟨rfl, hrequest⟩)⟩⟩

theorem readRequestBody_iff :
    (∃ body, readRequestBody value = some body) ↔
      RequestBodySchema Carries TakenAction value := by
  have hpair : (∃ body, readRequestBody value = some body) ↔ _ :=
    exists_required_pair_iff (by simp)
  rw [hpair]
  constructor
  · intro hread
    rcases hread with ⟨left, body, hshape, ⟨requestId, hrequestId⟩, hbody⟩
    rcases Option.map_eq_some_iff.mp hrequestId with ⟨id, hid, -⟩
    rw [readU64_eq_some_iff.mp hid] at hshape
    exact ⟨id, body, hshape, readClientRequest_iff.mp hbody⟩
  · intro hschema
    rcases hschema with ⟨requestId, body, hshape, hbody⟩
    refine ⟨_, body, hshape, ⟨⟨requestId⟩, ?_⟩,
      readClientRequest_iff.mpr hbody⟩
    simp [readRequestId]

theorem readRequest_iff :
    (∃ request, readRequest value = some request) ↔
      ∃ (version : UInt16) (payload : JsonValue),
        Carries false [("version", u16Json version), ("payload", payload)]
          value ∧ RequestBodySchema Carries TakenAction payload := by
  have hpair : (∃ request, readRequest value = some request) ↔ _ :=
    exists_required_pair_iff (by simp)
  rw [hpair]
  constructor
  · intro hread
    rcases hread with ⟨left, payload, hshape, ⟨version, hversion⟩, hpayload⟩
    rw [readU16_eq_some_iff.mp hversion] at hshape
    exact ⟨version, payload, hshape, readRequestBody_iff.mp hpayload⟩
  · intro hschema
    rcases hschema with ⟨version, payload, hshape, hpayload⟩
    exact ⟨_, payload, hshape, ⟨version, readU16_u16Json version⟩,
      readRequestBody_iff.mpr hpayload⟩

theorem readVersionPeek_iff {version : UInt16} :
    readVersionPeek value = some version ↔
      VersionMember value version ∨ value = .array [u16Json version] := by
  constructor
  · intro hpeek
    rcases bind_required_eq_some_iff.mp hpeek with
      ⟨document, hshape, hversion⟩
    rw [readU16_eq_some_iff.mp hversion] at hshape
    cases hshape with
    | object hperm hothers hdeny =>
        exact .inl ⟨_, rfl,
          single_of_carries (by simp) (.object hperm hothers hdeny)⟩
    | array => exact .inr rfl
  · intro hversion
    rcases hversion with ⟨members, rfl, hsingle⟩ | rfl
    · exact readVersionPeek_of_single hsingle
    · simp [readVersionPeek, fieldsOf]

theorem takenForRequest_iff :
    TakenForRequest value ↔
      readVersionPeek value = some domainSchemaVersion ∧
        ∃ request, readRequest value = some request := by
  constructor
  · intro htaken
    rcases htaken with ⟨⟨members, rfl⟩, payload, hshape, hpayload⟩
    have hsingle := single_of_carries (by simp) hshape
    exact ⟨readVersionPeek_of_single hsingle,
      readRequest_iff.mpr ⟨_, payload, hshape, hpayload⟩⟩
  · intro hread
    rcases readRequest_iff.mp hread.2 with
      ⟨version, payload, hshape, hpayload⟩
    rcases readVersionPeek_iff.mp hread.1 with ⟨members, rfl, hsingle⟩ | rfl
    · have hsame := single_of_carries (by simp) hshape
      rw [hsingle, List.cons.injEq, Prod.mk.injEq] at hsame
      rw [← hsame.1.2] at hshape
      exact ⟨⟨members, rfl⟩, payload, hshape, hpayload⟩
    · have hlength := congrArg List.length (carries_array_iff.mp hshape)
      simp at hlength

end Readers

/-! ## Failing closed -/

section Decoder

variable {text : JsonText} {body : List UInt8} {value : JsonValue}

theorem decodeRequest_of_parse (hlength : body.length ≤ maxFrameBytes)
    (hparse : text.parse body = some value) :
    decodeRequest (.ofJson text) body =
      match readVersionPeek value with
      | none => .error .malformed
      | some version =>
          if version ≠ domainSchemaVersion then
            .error (.version ⟨version, domainSchemaVersion⟩)
          else
            match readRequest value with
            | none => .error .malformed
            | some request => .ok request := by
  simp only [decodeRequest, decodeBody, if_neg (Nat.not_lt.mpr hlength),
    peekVersion, ProtocolCodec.ofJson, hparse, Option.bind_some]
  cases readVersionPeek value with
  | none => rfl
  | some version => cases readRequest value <;> rfl

theorem decodeRequest_eq_ok_iff (hlength : body.length ≤ maxFrameBytes)
    (hparse : text.parse body = some value) :
    (∃ request, decodeRequest (.ofJson text) body = .ok request) ↔
      TakenForRequest value := by
  rw [decodeRequest_of_parse hlength hparse, takenForRequest_iff]
  cases hpeek : readVersionPeek value with
  | none => simp
  | some version =>
      by_cases hversion : version = domainSchemaVersion
      · cases hread : readRequest value <;> simp [hversion]
      · simp [hversion]

/-- Every other document of the promised version is malformed. -/
theorem decodeRequest_eq_malformed (hlength : body.length ≤ maxFrameBytes)
    (hparse : text.parse body = some value)
    (hversion : ∀ version, readVersionPeek value = some version →
      version = domainSchemaVersion)
    (htaken : ¬TakenForRequest value) :
    decodeRequest (.ofJson text) body = .error .malformed := by
  rw [takenForRequest_iff] at htaken
  rw [decodeRequest_of_parse hlength hparse]
  cases hpeek : readVersionPeek value with
  | none => rfl
  | some version =>
      have hsame := hversion version hpeek
      rw [hpeek, hsame] at htaken
      cases hread : readRequest value with
      | none => simp [hsame]
      | some request =>
          rw [hread] at htaken
          exact (htaken ⟨rfl, request, rfl⟩).elim

/-- The decoder accepts exactly its schema and fails closed, unless only the
readers take the document for a request, or it is an array of another
version. -/
theorem request_decoder_fails_closed_iff
    (hlength : body.length ≤ maxFrameBytes)
    (hparse : text.parse body = some value) :
    FailsClosed value (decodeRequest (.ofJson text) body) ↔
      ¬(TakenForRequest value ∧ ¬IsRequest value) ∧
        ¬∃ version, value = .array [u16Json version] ∧
          version ≠ domainSchemaVersion := by
  constructor
  · intro hcloses
    constructor
    · intro htaken
      have hok := (decodeRequest_eq_ok_iff hlength hparse).mpr htaken.1
      exact htaken.2 (hcloses.accepts.mp hok)
    · intro hother
      rcases hother with ⟨version, rfl, hother⟩
      have hnot : ¬IsRequest (.array [u16Json version]) := by
        intro hrequest
        rcases hrequest.takenForRequest.1 with ⟨members, heq⟩
        contradiction
      have hmalformed := (hcloses.refuses hnot).2 (by
        intro found hmember
        rcases hmember with ⟨members, heq, -⟩
        contradiction)
      have hpeek := readVersionPeek_iff.mpr (.inr (rfl :
        JsonValue.array [u16Json version] = .array [u16Json version]))
      rw [decodeRequest_of_parse hlength hparse, hpeek] at hmalformed
      simp [hother] at hmalformed
  · intro hcondition
    have hsame : TakenForRequest value ↔ IsRequest value := by
      constructor
      · intro htaken
        by_contra hnot
        exact hcondition.1 ⟨htaken, hnot⟩
      · exact IsRequest.takenForRequest
    constructor
    case accepts =>
      rw [decodeRequest_eq_ok_iff hlength hparse, hsame]
    case refuses =>
      intro hnot
      constructor
      · intro version hmember hother
        rcases hmember with ⟨members, rfl, hsingle⟩
        exact decodeBody_of_other_version hlength hparse hsingle hother
      · intro hcurrent
        apply decodeRequest_eq_malformed hlength hparse
        · intro version hpeek
          rcases readVersionPeek_iff.mp hpeek with hmember | harray
          · exact hcurrent version hmember
          · by_contra hother
            exact hcondition.2 ⟨version, harray, hother⟩
        · rw [hsame]
          exact hnot

end Decoder

/-- What is encoded is a request, member by member. -/
theorem isRequest_requestJson {request : Request}
    (hversion : request.version = domainSchemaVersion) :
    IsRequest (requestJson request) := by
  rcases request with ⟨version, requestId, body⟩
  have hversion : version = domainSchemaVersion := hversion
  rw [hversion]
  refine ⟨_, exactObject_object _, _, _, exactObject_object _, ?_⟩
  cases body with
  | requestLease request =>
      exact .requestLease (exactObject_object _)
        ⟨_, _, _, exactObject_object _⟩ ⟨_, rfl⟩
  | releaseLease request =>
      exact .releaseLease (exactObject_object _)
        ⟨_, _, exactObject_object _⟩
  | agentStatus => exact .agentStatus (exactObject_object _)

theorem sampleRelease_fails_closed :
    FailsClosed (requestJson sampleRelease)
      (decodeRequest (.ofJson (.knowing (requestJson sampleRelease)))
        (encode ((JsonText.knowing (requestJson sampleRelease)).print
          (requestJson sampleRelease)))) := by
  have hlength : (encode ((JsonText.knowing (requestJson sampleRelease)).print
      (requestJson sampleRelease))).length ≤ maxFrameBytes := by
    decide +kernel
  have hparse := JsonText.reads_knowing (requestJson sampleRelease)
  rw [request_decoder_fails_closed_iff hlength hparse]
  constructor
  · intro hloose
    exact hloose.2 (isRequest_requestJson rfl)
  · intro harray
    rcases harray with ⟨version, heq, -⟩
    cases heq

def sneakyLeaseId : JsonValue :=
  .object [("issuer", .string "a"), ("sequence", u64Json 0),
    ("sneaky", .bool true)]

def sneakyRelease : JsonValue :=
  .object [("version", u16Json 1),
    ("payload", .object [("request_id", u64Json 7),
      ("body", .object [("op", .string "release_lease"),
        ("lease_id", sneakyLeaseId)])])]

theorem not_isRequest_sneakyRelease : ¬IsRequest sneakyRelease := by
  intro hrequest
  rcases hrequest with ⟨payload, henvelope, requestId, body, hpayload, hbody⟩
  have hpayloads := henvelope.mem (List.mem_cons_of_mem _ List.mem_cons_self)
  simp only [List.mem_cons, Prod.mk.injEq, List.not_mem_nil, or_false,
    String.reduceEq, false_and, true_and, false_or] at hpayloads
  rw [hpayloads] at hpayload
  have hbodies := hpayload.mem (List.mem_cons_of_mem _ List.mem_cons_self)
  simp only [List.mem_cons, Prod.mk.injEq, List.not_mem_nil, or_false,
    String.reduceEq, false_and, true_and, false_or] at hbodies
  rw [hbodies] at hbody
  cases hbody with
  | requestLease hshape => exact absurd hshape.length_eq (by simp)
  | releaseLease hshape hleaseId =>
      have hids := hshape.mem (List.mem_cons_of_mem _ List.mem_cons_self)
      simp only [List.mem_cons, Prod.mk.injEq, List.not_mem_nil, or_false,
        String.reduceEq, false_and, true_and, false_or] at hids
      rcases hleaseId with ⟨issuer, sequence, hleaseId⟩
      rw [hids] at hleaseId
      exact absurd hleaseId.length_eq (by simp)
  | agentStatus hshape => exact absurd hshape.length_eq (by simp)

/-- A member which no lease id has is accepted and ignored. -/
theorem unknown_field_can_be_accepted :
    (encode ((JsonText.knowing sneakyRelease).print sneakyRelease)).length ≤
        maxFrameBytes ∧
      (JsonText.knowing sneakyRelease).parse
          (encode ((JsonText.knowing sneakyRelease).print sneakyRelease)) =
        some sneakyRelease ∧
      decodeRequest (.ofJson (.knowing sneakyRelease))
          (encode ((JsonText.knowing sneakyRelease).print sneakyRelease)) =
        .ok (.current ⟨⟨7⟩, .releaseLease ⟨⟨⟨"a"⟩, 0⟩⟩⟩) ∧
      ¬FailsClosed sneakyRelease
        (decodeRequest (.ofJson (.knowing sneakyRelease))
          (encode ((JsonText.knowing sneakyRelease).print
            sneakyRelease))) := by
  have hlength : (encode ((JsonText.knowing sneakyRelease).print
      sneakyRelease)).length ≤ maxFrameBytes := by decide +kernel
  have hparse := JsonText.reads_knowing sneakyRelease
  have hdecode : decodeRequest (.ofJson (.knowing sneakyRelease))
      (encode ((JsonText.knowing sneakyRelease).print sneakyRelease)) =
        .ok (.current ⟨⟨7⟩, .releaseLease ⟨⟨⟨"a"⟩, 0⟩⟩⟩) := by
    rw [decodeRequest_of_parse hlength hparse]
    rfl
  refine ⟨hlength, hparse, hdecode, ?_⟩
  intro hcloses
  exact not_isRequest_sneakyRelease (hcloses.accepts.mp ⟨_, hdecode⟩)

end Eltanin.Protocol
