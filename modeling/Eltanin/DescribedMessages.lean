import Eltanin.DescribedDocuments
import Eltanin.WireSchema

/-!
# What the response decoder accepts

What a document says about a response is stated over the shapes of its
members.  The decoder returns a response on just the objects of the current
version which describe it, and each of its errors names what is wrong.
Responses deny no unknown fields, and a buffered tag may be a position.
-/

namespace Eltanin.Core

open Json

def DescribesVersioned {α : Type} (describes : JsonValue → α → Prop)
    (document : JsonValue) (envelope : Versioned α) : Prop :=
  ∃ payload, Carries false [("version", u16Json envelope.version),
      ("payload", payload)] document ∧
    describes payload envelope.payload

theorem readVersioned_exact {α : Type} {read : JsonValue → Option α}
    {describes : JsonValue → α → Prop}
    (hexact : ReadsExactly read describes) :
    ReadsExactly (readVersioned read) (DescribesVersioned describes) := by
  intro document envelope
  have hpair : readVersioned read document = some envelope ↔ _ :=
    bind_required_pair_iff (by simp)
  simp only [hpair, readU16_eq_some_iff, hexact _ _]
  constructor
  · rintro ⟨-, payload, hshape, version, content, rfl, hpayload, rfl⟩
    exact ⟨payload, hshape, hpayload⟩
  · rintro ⟨payload, hshape, hpayload⟩
    exact ⟨_, payload, hshape, _, _, rfl, hpayload, rfl⟩

def DescribesLeaseId (document : JsonValue) (leaseId : LeaseId) : Prop :=
  Carries false [("issuer", .string leaseId.issuer.tag),
    ("sequence", u64Json leaseId.sequence)] document

/-- The parts need not be those in which a duration is written. -/
def DescribesDuration (document : JsonValue) (duration : Duration) : Prop :=
  ∃ secs nanos, Carries true [("secs", u64Json secs),
      ("nanos", u32Json nanos)] document ∧
    secs.toNat * 1000000000 + nanos.toNat = duration.asNanos

theorem readLeaseId_exact : ReadsExactly readLeaseId DescribesLeaseId := by
  intro document leaseId
  have hpair : readLeaseId document = some leaseId ↔ _ :=
    bind_required_pair_iff (by simp)
  simp only [hpair, readString_eq_some_iff, readU64_eq_some_iff]
  constructor
  · rintro ⟨-, -, hshape, issuer, sequence, rfl, rfl, rfl⟩
    exact hshape
  · intro hshape
    exact ⟨_, _, hshape, _, _, rfl, rfl, rfl⟩

theorem Duration.ofParts?_eq_some_iff {secs : UInt64} {nanos : UInt32}
    {duration : Duration} :
    Duration.ofParts? secs nanos = some duration ↔
      secs.toNat * 1000000000 + nanos.toNat = duration.asNanos := by
  unfold ofParts? ofNanos?
  split
  next hrange =>
    cases duration
    simp
  next hrange =>
    have hduration := duration.inRange
    simp only [reduceCtorEq, false_iff]
    omega

theorem readDuration_exact : ReadsExactly readDuration DescribesDuration := by
  intro document duration
  have hdistinct (secs nanos : JsonValue) :
      ([("secs", secs), ("nanos", nanos)].map Prod.fst).Nodup := by
    simp
  constructor
  · intro hread
    simp only [readDuration, Option.bind_eq_bind, Option.bind_eq_some_iff,
      required_eq_some_iff, readU64_eq_some_iff, readU32_eq_some_iff]
      at hread
    obtain ⟨found, hfields, secs, ⟨_, hsecs, rfl⟩, nanos, ⟨_, hnanos, rfl⟩,
      hparts⟩ := hread
    refine ⟨secs, nanos, (carries_iff (hdistinct ..)).mpr
      ⟨found, hfields, ?_⟩, Duration.ofParts?_eq_some_iff.mp hparts⟩
    simp [hsecs, hnanos]
  · rintro ⟨secs, nanos, hshape, hsum⟩
    obtain ⟨found, hfields, hfound⟩ :=
      (carries_iff (hdistinct ..)).mp hshape
    have hduration := Duration.ofParts?_eq_some_iff.mpr hsum
    have hsecs := hfound ("secs", u64Json secs) (by simp)
    have hnanos := hfound ("nanos", u32Json nanos) (by simp)
    simp only [readDuration, Option.bind_eq_bind, Option.bind_eq_some_iff,
      required_eq_some_iff]
    exact ⟨found, hfields, secs, ⟨_, hsecs, readU64_u64Json secs⟩, nanos,
      ⟨_, hnanos, readU32_u32Json nanos⟩, hduration⟩

end Eltanin.Core

namespace Eltanin.Protocol

open Json Eltanin.Core

/-! ## What a document describes -/

def DescribesLeaseView (document : JsonValue) (lease : LeaseView) : Prop :=
  ∃ leaseId remaining, Carries false [("lease_id", leaseId),
      ("remaining", remaining)] document ∧
    DescribesLeaseId leaseId lease.leaseId ∧
    DescribesDuration remaining lease.remaining

def DescribesStatusView (document : JsonValue) (status : AgentStatusView) :
    Prop :=
  Carries false [("protocol_version", u16Json status.protocolVersion)]
    document

/-- A variant without fields looks at nothing but its tag. -/
inductive DescribesErrorCode (document : JsonValue) : ErrorCode → Prop
  | unsupportedVersion {tag : JsonValue} {found expected : UInt16}
      (htag : TagsVariant "unsupported_version" 0 tag)
      (hshape : Carries false [("error", tag), ("found", u16Json found),
        ("expected", u16Json expected)] document) :
      DescribesErrorCode document (.unsupportedVersion found expected)
  | malformedRequest {tag : JsonValue}
      (htag : TagsVariant "malformed_request" 1 tag)
      (hshape : Carries false [("error", tag)] document) :
      DescribesErrorCode document .malformedRequest
  | oversized {tag : JsonValue} (htag : TagsVariant "oversized" 2 tag)
      (hshape : Carries false [("error", tag)] document) :
      DescribesErrorCode document .oversized
  | unknownOperation {tag : JsonValue}
      (htag : TagsVariant "unknown_operation" 3 tag)
      (hshape : Carries false [("error", tag)] document) :
      DescribesErrorCode document .unknownOperation
  | internal {tag : JsonValue} (htag : TagsVariant "internal" 4 tag)
      (hshape : Carries false [("error", tag)] document) :
      DescribesErrorCode document .internal

inductive DescribesAnswer (document : JsonValue) : AgentResponse → Prop
  | leaseGranted {field : JsonValue} {lease : LeaseView}
      (hshape : Carries false [("result", .string "lease_granted"),
        ("lease", field)] document)
      (hlease : DescribesLeaseView field lease) :
      DescribesAnswer document (.leaseGranted lease)
  | leaseDenied {field : JsonValue} {reason : DenialReason}
      (hshape : Carries false [("result", .string "lease_denied"),
        ("reason", field)] document)
      (hreason : NamesVariant true reason.name field) :
      DescribesAnswer document (.leaseDenied reason)
  | leaseReleased {field : JsonValue} {outcome : ReleaseOutcome}
      (hshape : Carries false [("result", .string "lease_released"),
        ("outcome", field)] document)
      (houtcome : NamesVariant true outcome.name field) :
      DescribesAnswer document (.leaseReleased outcome)
  | status {field : JsonValue} {status : AgentStatusView}
      (hshape : Carries false [("result", .string "status"),
        ("status", field)] document)
      (hstatus : DescribesStatusView field status) :
      DescribesAnswer document (.status status)
  | error {field : JsonValue} {code : ErrorCode}
      (hshape : Carries false [("result", .string "error"), ("code", field)]
        document)
      (hcode : DescribesErrorCode field code) :
      DescribesAnswer document (.error code)

def DescribesRequestId (document : JsonValue) (requestId : RequestId) : Prop :=
  document = u64Json requestId.id

/-- The request id may be missing from an object. -/
inductive DescribesResponseBody (document : JsonValue) (body : ResponseBody) :
    Prop
  | whole {requestId answer : JsonValue}
      (hshape : Carries false [("request_id", requestId), ("body", answer)]
        document)
      (hrequestId : DescribesOption DescribesRequestId requestId
        body.requestId)
      (hanswer : DescribesAnswer answer body.body)
  | missing {members : Members} {answer : JsonValue}
      (hobject : document = .object members)
      (habsent : "request_id" ∉ members.map Prod.fst)
      (hshape : Carries false [("body", answer)] document)
      (hrequestId : body.requestId = none)
      (hanswer : DescribesAnswer answer body.body)

/-- An array of the two members of the envelope has no version to look at. -/
def DescribesResponse (document : JsonValue) (response : Response) : Prop :=
  (∃ members, document = .object members) ∧
    DescribesVersioned DescribesResponseBody document response

/-! ## The readers are exact -/

theorem readLeaseView_exact :
    ReadsExactly readLeaseView DescribesLeaseView := by
  intro document lease
  have hpair : readLeaseView document = some lease ↔ _ :=
    bind_required_pair_iff (by simp)
  simp only [hpair, readLeaseId_exact _ _, readDuration_exact _ _]
  constructor
  · rintro ⟨leaseId, remaining, hshape, id, duration, hid, hduration, rfl⟩
    exact ⟨leaseId, remaining, hshape, hid, hduration⟩
  · rintro ⟨leaseId, remaining, hshape, hid, hduration⟩
    exact ⟨leaseId, remaining, hshape, _, _, hid, hduration, rfl⟩

theorem readDenialReason_exact : ReadsExactly readDenialReason
    fun document reason => NamesVariant true reason.name document :=
  readUnitVariant_lookup_exact (by simp [DenialReason.name])
    (by rintro ⟨⟩ <;> rfl)

theorem readReleaseOutcome_exact : ReadsExactly readReleaseOutcome
    fun document outcome => NamesVariant true outcome.name document :=
  readUnitVariant_lookup_exact (by simp [ReleaseOutcome.name])
    (by rintro ⟨⟩ <;> rfl)

theorem readStatusView_exact :
    ReadsExactly readStatusView DescribesStatusView := by
  intro document status
  have hfield : readStatusView document = some status ↔ _ :=
    readField_eq_some_iff
  simp only [hfield, readU16_eq_some_iff]
  constructor
  · rintro ⟨-, hshape, version, rfl, rfl⟩
    exact hshape
  · intro hshape
    exact ⟨_, hshape, _, rfl, rfl⟩

theorem readUnsupportedVersion_eq_some_iff {document : JsonValue}
    {code : ErrorCode} :
    readUnsupportedVersion document = some code ↔
      ∃ found expected, Carries false [("found", u16Json found),
          ("expected", u16Json expected)] document ∧
        code = .unsupportedVersion found expected := by
  have hpair : readUnsupportedVersion document = some code ↔ _ :=
    bind_required_pair_iff (by simp)
  simp only [hpair, readU16_eq_some_iff]
  constructor
  · rintro ⟨-, -, hshape, found, expected, rfl, rfl, rfl⟩
    exact ⟨found, expected, hshape, rfl⟩
  · rintro ⟨found, expected, hshape, rfl⟩
    exact ⟨_, _, hshape, found, expected, rfl, rfl, rfl⟩

/-- The variants of an error code, each with what it reads. -/
theorem readErrorCode_exact :
    ReadsExactly readErrorCode DescribesErrorCode := by
  intro document code
  constructor
  · intro hread
    obtain ⟨tag, content, read, htagged, hselect, hread⟩ :=
      readTagged_eq_some_iff.mp hread
    obtain ⟨name, index, hitem, htag⟩ :=
      (selectVariant_buffered_eq_some_iff (by simp)).mp hselect
    have hmarked {fields : Members} (hfree : "error" ∉ fields.map Prod.fst)
        (hcontent : Carries false fields content) :
        Carries false (("error", tag) :: fields) document :=
      (carries_tag_iff hfree).mpr ⟨content, htagged, hcontent⟩
    match index with
    | 0 =>
        obtain ⟨rfl, rfl⟩ := Prod.mk.inj (Option.some.inj hitem)
        obtain ⟨found, expected, hshape, rfl⟩ :=
          readUnsupportedVersion_eq_some_iff.mp hread
        exact .unsupportedVersion htag (hmarked (by simp) hshape)
    | 1 =>
        obtain ⟨rfl, rfl⟩ := Prod.mk.inj (Option.some.inj hitem)
        obtain ⟨hshape, rfl⟩ := readUnit_eq_some_iff.mp hread
        exact .malformedRequest htag (hmarked (by simp) hshape)
    | 2 =>
        obtain ⟨rfl, rfl⟩ := Prod.mk.inj (Option.some.inj hitem)
        obtain ⟨hshape, rfl⟩ := readUnit_eq_some_iff.mp hread
        exact .oversized htag (hmarked (by simp) hshape)
    | 3 =>
        obtain ⟨rfl, rfl⟩ := Prod.mk.inj (Option.some.inj hitem)
        obtain ⟨hshape, rfl⟩ := readUnit_eq_some_iff.mp hread
        exact .unknownOperation htag (hmarked (by simp) hshape)
    | 4 =>
        obtain ⟨rfl, rfl⟩ := Prod.mk.inj (Option.some.inj hitem)
        obtain ⟨hshape, rfl⟩ := readUnit_eq_some_iff.mp hread
        exact .internal htag (hmarked (by simp) hshape)
    | index + 5 => simp at hitem
  · intro hdescribed
    cases hdescribed with
    | unsupportedVersion htag hshape =>
        exact readTagged_of_carries (by simp) hshape
          ((selectVariant_buffered_eq_some_iff (by simp)).mpr
            ⟨_, _, rfl, htag⟩)
          fun content hcontent => readUnsupportedVersion_eq_some_iff.mpr
            ⟨_, _, hcontent, rfl⟩
    | malformedRequest htag hshape =>
        exact readTagged_of_carries (by simp) hshape
          ((selectVariant_buffered_eq_some_iff (by simp)).mpr
            ⟨_, _, rfl, htag⟩)
          fun content hcontent => readUnit_eq_some_iff.mpr ⟨hcontent, rfl⟩
    | oversized htag hshape =>
        exact readTagged_of_carries (by simp) hshape
          ((selectVariant_buffered_eq_some_iff (by simp)).mpr
            ⟨_, _, rfl, htag⟩)
          fun content hcontent => readUnit_eq_some_iff.mpr ⟨hcontent, rfl⟩
    | unknownOperation htag hshape =>
        exact readTagged_of_carries (by simp) hshape
          ((selectVariant_buffered_eq_some_iff (by simp)).mpr
            ⟨_, _, rfl, htag⟩)
          fun content hcontent => readUnit_eq_some_iff.mpr ⟨hcontent, rfl⟩
    | internal htag hshape =>
        exact readTagged_of_carries (by simp) hshape
          ((selectVariant_buffered_eq_some_iff (by simp)).mpr
            ⟨_, _, rfl, htag⟩)
          fun content hcontent => readUnit_eq_some_iff.mpr ⟨hcontent, rfl⟩

theorem readAgentResponse_exact :
    ReadsExactly readAgentResponse DescribesAnswer := by
  intro document answer
  constructor
  · intro hread
    obtain ⟨tag, content, read, htagged, hselect, hread⟩ :=
      readTagged_eq_some_iff.mp hread
    obtain ⟨name, rfl, hlookup⟩ := selectVariant_eq_some_iff.mp hselect
    have hmarked {fields : Members} (hfree : "result" ∉ fields.map Prod.fst)
        (hcontent : Carries false fields content) :
        Carries false (("result", .string name) :: fields) document :=
      (carries_tag_iff hfree).mpr ⟨content, htagged, hcontent⟩
    have hmem := mem_of_lookup hlookup
    simp only [List.mem_cons, Prod.mk.injEq, List.not_mem_nil, or_false]
      at hmem
    rcases hmem with ⟨rfl, rfl⟩ | ⟨rfl, rfl⟩ | ⟨rfl, rfl⟩ | ⟨rfl, rfl⟩
      | ⟨rfl, rfl⟩ <;>
      obtain ⟨field, hshape, value, hvalue, rfl⟩ :=
        readField_eq_some_iff.mp hread
    · exact .leaseGranted (hmarked (by simp) hshape)
        ((readLeaseView_exact field value).mp hvalue)
    · exact .leaseDenied (hmarked (by simp) hshape)
        ((readDenialReason_exact field value).mp hvalue)
    · exact .leaseReleased (hmarked (by simp) hshape)
        ((readReleaseOutcome_exact field value).mp hvalue)
    · exact .status (hmarked (by simp) hshape)
        ((readStatusView_exact field value).mp hvalue)
    · exact .error (hmarked (by simp) hshape)
        ((readErrorCode_exact field value).mp hvalue)
  · intro hdescribed
    cases hdescribed with
    | leaseGranted hshape hlease =>
        exact readTagged_of_carries (by simp) hshape rfl
          fun content hcontent => readField_eq_some_iff.mpr ⟨_, hcontent, _,
            (readLeaseView_exact _ _).mpr hlease, rfl⟩
    | leaseDenied hshape hreason =>
        exact readTagged_of_carries (by simp) hshape rfl
          fun content hcontent => readField_eq_some_iff.mpr ⟨_, hcontent, _,
            (readDenialReason_exact _ _).mpr hreason, rfl⟩
    | leaseReleased hshape houtcome =>
        exact readTagged_of_carries (by simp) hshape rfl
          fun content hcontent => readField_eq_some_iff.mpr ⟨_, hcontent, _,
            (readReleaseOutcome_exact _ _).mpr houtcome, rfl⟩
    | status hshape hstatus =>
        exact readTagged_of_carries (by simp) hshape rfl
          fun content hcontent => readField_eq_some_iff.mpr ⟨_, hcontent, _,
            (readStatusView_exact _ _).mpr hstatus, rfl⟩
    | error hshape hcode =>
        exact readTagged_of_carries (by simp) hshape rfl
          fun content hcontent => readField_eq_some_iff.mpr ⟨_, hcontent, _,
            (readErrorCode_exact _ _).mpr hcode, rfl⟩

theorem readRequestId_exact :
    ReadsExactly readRequestId DescribesRequestId := by
  intro document requestId
  simp only [readRequestId, Option.map_eq_some_iff, readU64_eq_some_iff,
    DescribesRequestId]
  constructor
  · rintro ⟨id, rfl, rfl⟩
    rfl
  · intro hdocument
    exact ⟨requestId.id, hdocument, rfl⟩

theorem readResponseBody_exact :
    ReadsExactly readResponseBody DescribesResponseBody := by
  intro document body
  have hpair : readResponseBody document = some body ↔ _ :=
    bind_optional_pair_iff readRequestId_exact (by simp)
  simp only [hpair, readAgentResponse_exact _ _]
  constructor
  · rintro (⟨field, right, requestId, answer, hshape, hrequestId, hanswer,
      rfl⟩ | ⟨members, right, answer, hobject, habsent, hshape, hanswer, rfl⟩)
    · exact .whole hshape hrequestId hanswer
    · exact .missing hobject habsent hshape rfl hanswer
  · intro hdescribed
    cases hdescribed with
    | whole hshape hrequestId hanswer =>
        exact .inl ⟨_, _, _, _, hshape, hrequestId, hanswer, rfl⟩
    | missing hobject habsent hshape hrequestId hanswer =>
        exact .inr ⟨_, _, _, hobject, habsent, hshape, hanswer,
          by rw [← hrequestId]⟩

/-! ## Decoding -/

/-- The version which is looked at before anything else. -/
def SaysVersion (document : JsonValue) (version : UInt16) : Prop :=
  VersionMember document version ∨ document = .array [u16Json version]

/-- The version which is looked at first is that of the response. -/
theorem version_of_peek {document : JsonValue} {version : UInt16}
    {response : Response} (hpeek : readVersionPeek document = some version)
    (hread : readResponse document = some response) :
    version = response.version ∧ DescribesResponse document response := by
  obtain ⟨payload, hshape, hpayload⟩ :=
    (readVersioned_exact readResponseBody_exact document response).mp hread
  rcases readVersionPeek_iff.mp hpeek with ⟨members, rfl, hsingle⟩ | rfl
  · have hsame := single_of_carries (by simp) hshape
    rw [hsingle, List.cons.injEq, Prod.mk.injEq] at hsame
    have hversion := readU16_eq_some_iff.mpr hsame.1.2
    rw [readU16_u16Json, Option.some.injEq] at hversion
    exact ⟨hversion, ⟨members, rfl⟩, payload, hshape, hpayload⟩
  · have hlength := congrArg List.length (carries_array_iff.mp hshape)
    simp at hlength

theorem peek_of_describesResponse {document : JsonValue} {response : Response}
    (hdescribed : DescribesResponse document response) :
    readVersionPeek document = some response.version ∧
      readResponse document = some response := by
  obtain ⟨⟨members, rfl⟩, payload, hshape, hpayload⟩ := hdescribed
  exact ⟨readVersionPeek_of_single (single_of_carries (by simp) hshape),
    (readVersioned_exact readResponseBody_exact _ response).mpr
      ⟨payload, hshape, hpayload⟩⟩

/-- What a body of bytes comes to as a response. -/
structure DecodesExactly (text : JsonText) (body : List UInt8)
    (decoded : Except ProtocolError Response) : Prop where
  accepts : ∀ response, decoded = .ok response ↔
    body.length ≤ maxFrameBytes ∧ response.version = domainSchemaVersion ∧
      ∃ document, text.parse body = some document ∧
        DescribesResponse document response
  outdated : ∀ error, decoded = .error (.version error) ↔
    body.length ≤ maxFrameBytes ∧ error.expected = domainSchemaVersion ∧
      error.found ≠ domainSchemaVersion ∧
      ∃ document, text.parse body = some document ∧
        SaysVersion document error.found
  malformed : decoded = .error .malformed ↔
    body.length ≤ maxFrameBytes ∧
      ∀ document, text.parse body = some document →
        (∀ version, SaysVersion document version →
          version = domainSchemaVersion) ∧
        ∀ response, response.version = domainSchemaVersion →
          ¬DescribesResponse document response
  oversized : ∀ error, decoded = .error (.framing error) ↔
    maxFrameBytes < body.length ∧
      error = .oversized body.length maxFrameBytes

section Bodies

variable {α : Type} {codec : ProtocolCodec} {parse : List UInt8 → Option α}
  {body : List UInt8} {message : α}

theorem decodeBody_eq_ok_iff :
    decodeBody codec parse body = .ok message ↔
      body.length ≤ maxFrameBytes ∧
        codec.parseVersion body = some domainSchemaVersion ∧
        parse body = some message := by
  unfold decodeBody peekVersion
  by_cases hlong : maxFrameBytes < body.length
  · simp [hlong]
  · cases codec.parseVersion body with
    | none => simp [hlong]
    | some version =>
        by_cases hversion : version = domainSchemaVersion
        · cases parse body <;> simp [hlong, hversion, Nat.not_lt.mp hlong]
        · simp [hlong, hversion]

theorem decodeBody_eq_version_iff {error : UnsupportedVersion} :
    decodeBody codec parse body = .error (.version error) ↔
      body.length ≤ maxFrameBytes ∧
        error.expected = domainSchemaVersion ∧
        error.found ≠ domainSchemaVersion ∧
        codec.parseVersion body = some error.found := by
  obtain ⟨found, expected⟩ := error
  unfold decodeBody peekVersion
  by_cases hlong : maxFrameBytes < body.length
  · simp [hlong]
  · cases codec.parseVersion body with
    | none => simp [hlong]
    | some version =>
        by_cases hversion : version = domainSchemaVersion
        · cases parse body <;> simp [hlong, hversion, eq_comm]
        · simp only [hlong, ↓reduceIte, ne_eq, hversion, not_false_eq_true,
            Except.error.injEq, ProtocolError.version.injEq,
            UnsupportedVersion.mk.injEq, Option.some.injEq]
          constructor
          · rintro ⟨rfl, rfl⟩
            exact ⟨Nat.not_lt.mp hlong, rfl, hversion, rfl⟩
          · rintro ⟨-, rfl, -, rfl⟩
            exact ⟨rfl, rfl⟩

theorem decodeBody_eq_malformed_iff :
    decodeBody codec parse body = .error .malformed ↔
      body.length ≤ maxFrameBytes ∧
        (∀ version, codec.parseVersion body = some version →
          version = domainSchemaVersion) ∧
        (codec.parseVersion body = some domainSchemaVersion →
          parse body = none) := by
  unfold decodeBody peekVersion
  by_cases hlong : maxFrameBytes < body.length
  · simp [hlong]
  · cases codec.parseVersion body with
    | none => simp [hlong, Nat.not_lt.mp hlong]
    | some version =>
        by_cases hversion : version = domainSchemaVersion
        · cases parse body <;> simp [hlong, hversion, Nat.not_lt.mp hlong]
        · simp [hlong, hversion]

theorem decodeBody_eq_framing_iff {error : FramingError} :
    decodeBody codec parse body = .error (.framing error) ↔
      maxFrameBytes < body.length ∧
        error = .oversized body.length maxFrameBytes := by
  unfold decodeBody peekVersion
  by_cases hlong : maxFrameBytes < body.length
  · simp [hlong, eq_comm]
  · cases codec.parseVersion body with
    | none => simp [hlong]
    | some version =>
        by_cases hversion : version = domainSchemaVersion
        · cases parse body <;> simp [hlong, hversion]
        · simp [hlong, hversion]

end Bodies

section Decoding

variable {text : JsonText} {body : List UInt8} {response : Response}

theorem parseVersion_eq_some_iff {version : UInt16} :
    (ProtocolCodec.ofJson text).parseVersion body = some version ↔
      ∃ document, text.parse body = some document ∧
        SaysVersion document version := by
  simp only [ProtocolCodec.ofJson, Option.bind_eq_some_iff,
    readVersionPeek_iff, SaysVersion]

/-- The decoder returns just the responses of this version which the document
describes. -/
theorem decodeResponse_eq_ok_iff :
    decodeResponse (.ofJson text) body = .ok response ↔
      body.length ≤ maxFrameBytes ∧
        response.version = domainSchemaVersion ∧
        ∃ document, text.parse body = some document ∧
          DescribesResponse document response := by
  rw [decodeResponse, decodeBody_eq_ok_iff]
  simp only [ProtocolCodec.ofJson, Option.bind_eq_some_iff]
  constructor
  · rintro ⟨hlength, ⟨document, hparse, hpeek⟩, other, hother, hread⟩
    obtain rfl := Option.some.inj (hparse.symm.trans hother)
    obtain ⟨hversion, hdescribed⟩ := version_of_peek hpeek hread
    exact ⟨hlength, hversion.symm, document, hparse, hdescribed⟩
  · rintro ⟨hlength, hversion, document, hparse, hdescribed⟩
    obtain ⟨hpeek, hread⟩ := peek_of_describesResponse hdescribed
    exact ⟨hlength, ⟨document, hparse, hversion ▸ hpeek⟩, document, hparse,
      hread⟩

end Decoding

theorem decodeResponse_exact (text : JsonText) (body : List UInt8) :
    DecodesExactly text body (decodeResponse (.ofJson text) body) where
  accepts response := decodeResponse_eq_ok_iff
  outdated error := by
    rw [decodeResponse, decodeBody_eq_version_iff, parseVersion_eq_some_iff]
  malformed := by
    rw [decodeResponse, decodeBody_eq_malformed_iff]
    simp only [parseVersion_eq_some_iff]
    constructor
    · rintro ⟨hlength, hversions, hunread⟩
      refine ⟨hlength, ?_⟩
      intro document hparse
      refine ⟨fun version hsays => hversions version
        ⟨document, hparse, hsays⟩, ?_⟩
      intro response hversion hdescribed
      obtain ⟨hpeek, hread⟩ := peek_of_describesResponse hdescribed
      have hsays := readVersionPeek_iff.mp hpeek
      have hnone := hunread ⟨document, hparse, hversion ▸ hsays⟩
      rw [ProtocolCodec.ofJson] at hnone
      simp [hparse, hread] at hnone
    · rintro ⟨hlength, hall⟩
      refine ⟨hlength, ?_, ?_⟩
      · rintro version ⟨document, hparse, hsays⟩
        exact (hall document hparse).1 version hsays
      · rintro ⟨document, hparse, hsays⟩
        rw [Option.eq_none_iff_forall_ne_some]
        intro response hread
        obtain ⟨other, hother, hread⟩ := Option.bind_eq_some_iff.mp hread
        obtain rfl := Option.some.inj (hparse.symm.trans hother)
        obtain ⟨hversion, hdescribed⟩ :=
          version_of_peek (readVersionPeek_iff.mpr hsays) hread
        exact (hall document hparse).2 response hversion.symm hdescribed
  oversized error := by
    rw [decodeResponse, decodeBody_eq_framing_iff]

end Eltanin.Protocol
