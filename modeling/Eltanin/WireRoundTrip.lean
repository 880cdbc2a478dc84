import Eltanin.WireJson

/-!
# Messages survive the wire

Whatever is encoded is decoded to the same message, in both directions and
for every variant.  A message of another version is reported as such, before
its payload is looked at.
-/

namespace Eltanin.Protocol

open Json Eltanin.Core TextLines

variable {text : JsonText}

theorem drop_encodeFrame {payload frame : List UInt8}
    (hencode : encodeFrame payload = .ok frame) :
    payload.length ≤ maxFrameBytes ∧ frame.drop 4 = payload := by
  rcases encodeFrame_eq_ok_iff.mp hencode with ⟨hlength, hframe⟩
  rw [hframe]
  exact ⟨hlength, rfl⟩

theorem decodeRequest_encodeRequest {request : Request} {frame : List UInt8}
    (hversion : request.version = domainSchemaVersion)
    (hreads : text.Reads (requestJson request))
    (hencode : encodeRequest (.ofJson text) request = .ok frame) :
    decodeRequest (.ofJson text) (frame.drop 4) = .ok request := by
  rcases drop_encodeFrame hencode with ⟨hlength, hbody⟩
  have hparse : text.parse (encode (text.print (requestJson request))) =
    some (requestJson request) := hreads
  rw [hbody]
  apply decodeBody_eq_ok hlength
  · simp only [ProtocolCodec.ofJson, hparse, Option.bind_some]
    rw [requestJson, readVersionPeek_versionedJson, hversion]
  · simp only [ProtocolCodec.ofJson, hparse, Option.bind_some,
      readRequest_requestJson]

theorem decodeResponse_encodeResponse {response : Response}
    {frame : List UInt8}
    (hversion : response.version = domainSchemaVersion)
    (hreads : text.Reads (responseJson response))
    (hencode : encodeResponse (.ofJson text) response = .ok frame) :
    decodeResponse (.ofJson text) (frame.drop 4) = .ok response := by
  rcases drop_encodeFrame hencode with ⟨hlength, hbody⟩
  have hparse : text.parse (encode (text.print (responseJson response))) =
    some (responseJson response) := hreads
  rw [hbody]
  apply decodeBody_eq_ok hlength
  · simp only [ProtocolCodec.ofJson, hparse, Option.bind_some]
    rw [responseJson, readVersionPeek_versionedJson, hversion]
  · simp only [ProtocolCodec.ofJson, hparse, Option.bind_some,
      readResponse_responseJson]

theorem decodeBody_of_other_version {α : Type}
    {parse : List UInt8 → Option α} {body : List UInt8} {members : Members}
    {version : UInt16} (hlength : body.length ≤ maxFrameBytes)
    (hparse : text.parse body = some (.object members))
    (hsingle : members.filter (fun member => member.1 = "version") =
      [("version", u16Json version)])
    (hother : version ≠ domainSchemaVersion) :
    decodeBody (.ofJson text) parse body =
      .error (.version ⟨version, domainSchemaVersion⟩) := by
  have hpeek : peekVersion (.ofJson text) body = some version := by
    simp [peekVersion, ProtocolCodec.ofJson, hparse,
      readVersionPeek_of_single hsingle]
  simp [decodeBody, Nat.not_lt.mpr hlength, hpeek, hother]

/-- Both directions of the protocol round-trip, and another version is
reported whatever the payload holds. -/
theorem wire_round_trips (text : JsonText) :
    (∀ (request : Request) (frame : List UInt8),
      request.version = domainSchemaVersion →
      text.Reads (requestJson request) →
      encodeRequest (.ofJson text) request = .ok frame →
      decodeRequest (.ofJson text) (frame.drop 4) = .ok request) ∧
    (∀ (response : Response) (frame : List UInt8),
      response.version = domainSchemaVersion →
      text.Reads (responseJson response) →
      encodeResponse (.ofJson text) response = .ok frame →
      decodeResponse (.ofJson text) (frame.drop 4) = .ok response) ∧
    (∀ (body : List UInt8) (members : Members) (version : UInt16),
      body.length ≤ maxFrameBytes →
      text.parse body = some (.object members) →
      members.filter (fun member => member.1 = "version") =
        [("version", u16Json version)] →
      version ≠ domainSchemaVersion →
      decodeRequest (.ofJson text) body =
          .error (.version ⟨version, domainSchemaVersion⟩) ∧
        decodeResponse (.ofJson text) body =
          .error (.version ⟨version, domainSchemaVersion⟩)) := by
  refine ⟨?_, ?_, ?_⟩
  · intro request frame hversion hreads hencode
    exact decodeRequest_encodeRequest hversion hreads hencode
  · intro response frame hversion hreads hencode
    exact decodeResponse_encodeResponse hversion hreads hencode
  · intro body members version hlength hparse hsingle hother
    exact ⟨decodeBody_of_other_version hlength hparse hsingle hother,
      decodeBody_of_other_version hlength hparse hsingle hother⟩

def sampleRelease : Request :=
  .current ⟨⟨7⟩, .releaseLease ⟨⟨⟨"agent"⟩, 3⟩⟩⟩

def sampleDenial : Response :=
  .current ⟨none, .leaseDenied .explicitDeny⟩

/-- An envelope of the next version, with a payload of another shape. -/
def sampleNext : Members :=
  [("payload", .null), ("version", u16Json 2), ("extra", .bool true)]

theorem sample_wire_round_trips :
    (∃ frame, encodeRequest (.ofJson (.knowing (requestJson sampleRelease)))
        sampleRelease = .ok frame ∧
      decodeRequest (.ofJson (.knowing (requestJson sampleRelease)))
        (frame.drop 4) = .ok sampleRelease) ∧
    (∃ frame, encodeResponse (.ofJson (.knowing (responseJson sampleDenial)))
        sampleDenial = .ok frame ∧
      decodeResponse (.ofJson (.knowing (responseJson sampleDenial)))
        (frame.drop 4) = .ok sampleDenial) ∧
    (∃ body, decodeRequest (.ofJson (.knowing (.object sampleNext))) body =
      .error (.version ⟨2, domainSchemaVersion⟩)) := by
  refine ⟨?_, ?_, ?_⟩
  · have hencode := encodeFrame_eq_ok_iff.mpr
      ⟨(by decide +kernel : (encode ((JsonText.knowing
        (requestJson sampleRelease)).print
          (requestJson sampleRelease))).length ≤ maxFrameBytes), rfl⟩
    exact ⟨_, hencode, (wire_round_trips _).1 sampleRelease _ rfl
      (JsonText.reads_knowing _) hencode⟩
  · have hencode := encodeFrame_eq_ok_iff.mpr
      ⟨(by decide +kernel : (encode ((JsonText.knowing
        (responseJson sampleDenial)).print
          (responseJson sampleDenial))).length ≤ maxFrameBytes), rfl⟩
    exact ⟨_, hencode, (wire_round_trips _).2.1 sampleDenial _ rfl
      (JsonText.reads_knowing _) hencode⟩
  · have hlength : (encode ((JsonText.knowing (.object sampleNext)).print
        (.object sampleNext))).length ≤ maxFrameBytes := by decide +kernel
    exact ⟨_, ((wire_round_trips _).2.2 _ sampleNext 2 hlength
      (JsonText.reads_knowing _) rfl (by decide)).1⟩

end Eltanin.Protocol
