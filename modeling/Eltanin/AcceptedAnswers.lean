import Eltanin.DescribedMessages
import Eltanin.ExchangeOutcome

/-!
# What the client takes for an answer

The client knows nothing of what is at the other end of its socket.  Over any
stream of bytes it returns an answer just where the stream begins with a whole
frame of a document which describes this answer, in the current version and
under the id of this request; under another id it reports a mismatch, and
nothing else makes it report one.
-/

namespace Eltanin.Cli

open Json Eltanin.Core Protocol ByteStream

/-- What an exchange has been brought: a whole frame at the beginning of the
stream, of a document which describes this body. -/
def Brought (text : JsonText) (stream : List Delivery) (body : ResponseBody) :
    Prop :=
  ∃ payload framed document, encodeFrame payload = .ok framed ∧
    framed <+: delivered stream ∧ text.parse payload = some document ∧
    DescribesResponse document (.current body)

/-- An exchange which has come as far as its reads. -/
structure Asked (codec : ProtocolCodec) (requestId : RequestId)
    (request : ClientRequest) (transport : Transport) : Prop where
  encoded : ∃ framed,
    encodeRequest codec (.current ⟨requestId, request⟩) = .ok framed
  connected : transport.connect = .ok ()
  timeouts : transport.setTimeouts = .ok ()
  sent : transport.send = .ok ()

/-- What an exchange comes to, as far as it says whose answer it has found. -/
structure ExchangesExactly (text : JsonText) (requestId : RequestId)
    (request : ClientRequest) (transport : Transport)
    (exchanged : Except ClientError AgentResponse) : Prop where
  answered : ∀ answer, exchanged = .ok answer ↔
    Asked (.ofJson text) requestId request transport ∧
      Brought text transport.reads ⟨some requestId, answer⟩
  mismatched : ∀ expected actual,
    exchanged = .error (.requestIdMismatch expected actual) ↔
      Asked (.ofJson text) requestId request transport ∧
        expected = requestId ∧ actual ≠ some requestId ∧
        ∃ answer, Brought text transport.reads ⟨actual, answer⟩

section Reading

variable {stream : List Delivery} {body : List UInt8}

theorem readResponse_eq_ok_iff :
    readResponse stream = .ok body ↔
      ∃ framed, encodeFrame body = .ok framed ∧
        framed <+: delivered stream := by
  constructor
  · exact readResponse_eq_ok
  · rintro ⟨framed, hencode, hbegins⟩
    exact readResponse_of_prefix hencode hbegins

theorem readExact_ne_mismatch {len : ℕ} {expected : RequestId}
    {actual : Option RequestId} :
    (readExact len stream).1 ≠ .error (.requestIdMismatch expected actual)
    := by
  unfold readExact
  split
  next => simp
  next => simp
  next => simp

theorem readResponse_ne_mismatch {expected : RequestId}
    {actual : Option RequestId} :
    readResponse stream ≠ .error (.requestIdMismatch expected actual) := by
  unfold readResponse
  split
  next error unread hheader =>
    intro heq
    have hfirst : (readExact 4 stream).1 = .error error := by rw [hheader]
    exact readExact_ne_mismatch (hfirst.trans heq)
  next =>
    split
    next => simp
    next => exact readExact_ne_mismatch

end Reading

section Exchange

variable {text : JsonText} {codec : ProtocolCodec} {requestId : RequestId}
  {request : ClientRequest} {transport : Transport}

/-- An exchange comes as far as its reads, or has failed before them. -/
theorem exchange_cases (codec : ProtocolCodec) (requestId : RequestId)
    (request : ClientRequest) (transport : Transport) :
    (Asked codec requestId request transport ∧
      exchange codec requestId request transport =
        match readResponse transport.reads with
        | .error error => .error error
        | .ok body => acceptResponse codec requestId body) ∨
    (¬Asked codec requestId request transport ∧
      ∃ error, exchange codec requestId request transport = .error error ∧
        ∀ expected actual, error ≠ .requestIdMismatch expected actual) := by
  unfold exchange
  cases hencode : encodeRequest codec (.current ⟨requestId, request⟩) with
  | error error =>
      refine .inr ⟨?_, _, rfl, by simp⟩
      rintro ⟨⟨framed, hframed⟩, -, -, -⟩
      rw [hencode] at hframed
      contradiction
  | ok framed =>
      cases hconnect : transport.connect with
      | error reason =>
          refine .inr ⟨?_, _, rfl, by simp⟩
          rintro ⟨-, hconnected, -, -⟩
          rw [hconnect] at hconnected
          contradiction
      | ok _ =>
          cases htimeouts : transport.setTimeouts with
          | error reason =>
              refine .inr ⟨?_, _, rfl, by simp⟩
              rintro ⟨-, -, hset, -⟩
              rw [htimeouts] at hset
              contradiction
          | ok _ =>
              cases hsend : transport.send with
              | error reason =>
                  refine .inr ⟨?_, _, rfl, by simp⟩
                  rintro ⟨-, -, -, hsent⟩
                  rw [hsend] at hsent
                  contradiction
              | ok _ =>
                  exact .inl
                    ⟨⟨⟨framed, hencode⟩, hconnect, htimeouts, hsend⟩, rfl⟩

/-- What is accepted from a body: the answer under the id of the request, or
the report of another id. -/
theorem acceptResponse_eq_ok_iff {payload : List UInt8}
    {answer : AgentResponse} :
    acceptResponse codec requestId payload = .ok answer ↔
      ∃ response, decodeResponse codec payload = .ok response ∧
        response.payload = ⟨some requestId, answer⟩ := by
  unfold acceptResponse
  split
  next error hdecode => simp [hdecode]
  next response hdecode =>
    obtain ⟨version, found, body⟩ := response
    by_cases hid : found = some requestId <;> simp [hdecode, hid]

theorem acceptResponse_eq_mismatch_iff {payload : List UInt8}
    {expected : RequestId} {actual : Option RequestId} :
    acceptResponse codec requestId payload =
        .error (.requestIdMismatch expected actual) ↔
      expected = requestId ∧ actual ≠ some requestId ∧
        ∃ answer response, decodeResponse codec payload = .ok response ∧
          response.payload = ⟨actual, answer⟩ := by
  unfold acceptResponse
  split
  next error hdecode => simp [hdecode]
  next response hdecode =>
    obtain ⟨version, found, body⟩ := response
    simp only [hdecode, Except.ok.injEq, exists_eq_left']
    by_cases hid : found = some requestId
    · simp only [hid, ne_eq, not_true_eq_false, ↓reduceIte, reduceCtorEq,
        false_iff]
      rintro ⟨-, hne, other, hpayload⟩
      exact hne (ResponseBody.mk.inj hpayload).1.symm
    · simp only [ne_eq, hid, not_false_eq_true, ↓reduceIte,
        Except.error.injEq, ClientError.requestIdMismatch.injEq]
      constructor
      · rintro ⟨rfl, rfl⟩
        exact ⟨rfl, hid, body, rfl⟩
      · rintro ⟨rfl, -, other, hpayload⟩
        exact ⟨rfl, (ResponseBody.mk.inj hpayload).1⟩

/-- A response is decoded from the body of the first frame just where one has
been brought. -/
theorem brought_iff {stream : List Delivery} {body : ResponseBody} :
    Brought text stream body ↔
      ∃ payload response, readResponse stream = .ok payload ∧
        decodeResponse (.ofJson text) payload = .ok response ∧
        response.payload = body := by
  simp only [readResponse_eq_ok_iff, decodeResponse_eq_ok_iff]
  constructor
  · rintro ⟨payload, framed, document, hencode, hbegins, hparse, hdescribed⟩
    exact ⟨payload, .current body, ⟨framed, hencode, hbegins⟩,
      ⟨(encodeFrame_eq_ok_iff.mp hencode).1, rfl, document, hparse,
        hdescribed⟩, rfl⟩
  · rintro ⟨payload, ⟨version, body⟩, ⟨framed, hencode, hbegins⟩,
      ⟨-, rfl, document, hparse, hdescribed⟩, rfl⟩
    exact ⟨payload, framed, document, hencode, hbegins, hparse, hdescribed⟩

theorem exchange_exact (text : JsonText) (requestId : RequestId)
    (request : ClientRequest) (transport : Transport) :
    ExchangesExactly text requestId request transport
      (exchange (.ofJson text) requestId request transport) where
  answered answer := by
    rcases exchange_cases (.ofJson text) requestId request transport with
      ⟨hasked, hexchange⟩ | ⟨hasked, error, hexchange, -⟩
    · rw [hexchange, brought_iff, and_iff_right hasked]
      cases hread : readResponse transport.reads with
      | error error => simp
      | ok payload => simp [acceptResponse_eq_ok_iff]
    · simp [hexchange, hasked]
  mismatched expected actual := by
    rcases exchange_cases (.ofJson text) requestId request transport with
      ⟨hasked, hexchange⟩ | ⟨hasked, error, hexchange, hother⟩
    · simp only [hexchange, brought_iff, and_iff_right hasked]
      cases hread : readResponse transport.reads with
      | error error =>
          have hne : readResponse transport.reads ≠
              .error (.requestIdMismatch expected actual) :=
            readResponse_ne_mismatch
          rw [hread] at hne
          simpa using hne
      | ok payload => simp [acceptResponse_eq_mismatch_iff]
    · have hne := hother expected actual
      simp [hexchange, hasked, hne]

end Exchange

end Eltanin.Cli
