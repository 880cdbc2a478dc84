import Eltanin.ClientModel
import Eltanin.ConnectionModel
import Eltanin.TextLines

/-!
# What a reply means to both sides

The agent answers under the id of the request once it has read the request,
and the client takes no other answer.  An answer to a peer which could not be
derived, or to a request which was not read whole, carries no id; the client
takes it for no answer at all.
-/

namespace Eltanin.Cli

open Eltanin.Core Protocol Agent ByteStream

/-- The client finds a whole frame, whatever it says. -/
def Transport.FindsFrame (self : Transport) : Prop :=
  self.connect = .ok () ∧ self.setTimeouts = .ok () ∧ self.send = .ok () ∧
    ∃ payload, encodeFrame payload = .ok (delivered self.reads)

/-- One exchange together with the connection which serves it. -/
structure Conversation where
  requestId : RequestId
  request : ClientRequest
  transport : Transport
  timeoutsSet : Bool
  peer : Option PeerContext
  agentReads : List Delivery
  handler : ClientRequest → PeerContext → Completion AgentResponse

namespace Conversation

variable (codec : ProtocolCodec) (talk : Conversation)

def envelope : Request := .current ⟨talk.requestId, talk.request⟩

def result : Except ClientError AgentResponse :=
  exchange codec talk.requestId talk.request talk.transport

def served : Served :=
  serveConnection codec talk.timeoutsSet talk.peer talk.agentReads
    talk.handler

/-- The request is well formed, and each side reads no more than a first part
of what the other has written. -/
structure Connected (framed : List UInt8) : Prop where
  encoded : encodeRequest codec talk.envelope = .ok framed
  requested : delivered talk.agentReads <+: framed
  answered : ∀ response frame,
    (talk.served codec).written = .returned (some (response, frame)) →
      delivered talk.transport.reads <+: frame
  silent : (∀ response frame,
    (talk.served codec).written ≠ .returned (some (response, frame))) →
      delivered talk.transport.reads = []

/-- The codec reads back the request, and the response if there is one. -/
structure ReadsBack : Prop where
  request : codec.ReadsRequest talk.envelope
  response : ∀ response frame,
    (talk.served codec).written = .returned (some (response, frame)) →
      codec.ReadsResponse response

def FindsFrame : Prop := talk.transport.FindsFrame

def Received (response : Response) : Prop :=
  talk.transport.connect = .ok () ∧ talk.transport.setTimeouts = .ok () ∧
    talk.transport.send = .ok () ∧
      (talk.served codec).written =
        .returned (some (response, delivered talk.transport.reads))

/-- An error or a denial which is received is what the exchange returns, with
its own exit code, and without a response being received there is no other
way to fail. -/
structure MeansTheSame : Prop where
  error : ∀ response code, talk.Received codec response →
    response.payload.body = .error code →
      talk.result codec = .ok (.error code) ∧
        initialLease (talk.result codec) = .error (.agentError code)
  denied : ∀ response reason, talk.Received codec response →
    response.payload.body = .leaseDenied reason →
      talk.result codec = .ok (.leaseDenied reason) ∧
        initialLease (talk.result codec) = .error (.denied reason)
  unavailable : ∀ error, talk.result codec = .error error →
    ∀ response, ¬talk.Received codec response

end Conversation

/-! ## The agent's side -/

section Agent

variable {codec : ProtocolCodec} {framed payload : List UInt8}
  {stream : List Delivery}

theorem send_eq_returned {requestId : Option RequestId}
    {body : AgentResponse} {response : Response} {frame : List UInt8}
    (hsend : send codec requestId body = .returned (response, frame)) :
    response.payload.requestId = requestId ∧
      response.version = domainSchemaVersion ∧
        encodeResponse codec response = .ok frame := by
  unfold send at hsend
  simp only at hsend
  split at hsend
  next framed hframed =>
    cases hsend
    exact ⟨rfl, rfl, hframed⟩
  next =>
    split at hsend
    next framed hframed =>
      cases hsend
      exact ⟨rfl, rfl, hframed⟩
    next => contradiction

theorem wrote_eq_returned {sent : Completion (Response × List UInt8)}
    {response : Response} {frame : List UInt8}
    (hwrote : wrote sent = .returned (some (response, frame))) :
    sent = .returned (response, frame) := by
  cases sent with
  | returned value =>
      simp only [wrote, Completion.returned.injEq, Option.some.injEq]
        at hwrote
      rw [hwrote]
  | panicked => contradiction

variable {timeoutsSet : Bool} {peer : Option PeerContext}
  {handler : ClientRequest → PeerContext → Completion AgentResponse}
  {response : Response} {frame : List UInt8}

theorem exists_send_of_written
    (hwritten : (serveConnection codec timeoutsSet peer stream handler).written
      = .returned (some (response, frame))) :
    ∃ requestId body,
      send codec requestId body = .returned (response, frame) := by
  unfold serveConnection at hwritten
  split at hwritten
  · simp at hwritten
  cases peer with
  | none => exact ⟨_, _, wrote_eq_returned hwritten⟩
  | some context =>
      simp only at hwritten
      split at hwritten
      · simp at hwritten
      · exact ⟨_, _, wrote_eq_returned hwritten⟩
      · exact ⟨_, _, wrote_eq_returned hwritten⟩
      · split at hwritten
        next error _ =>
          have hrefused := wrote_eq_returned hwritten
          unfold refuse at hrefused
          split at hrefused <;> exact ⟨_, _, hrefused⟩
        next => exact ⟨_, _, wrote_eq_returned hwritten⟩

theorem requestId_of_unread
    (hunread : peer = none ∨ (readFrame stream).1 = .eof ∨
      (readFrame stream).1 = .failed)
    (hwritten : (serveConnection codec timeoutsSet peer stream handler).written
      = .returned (some (response, frame))) :
    response.payload.requestId = none := by
  unfold serveConnection at hwritten
  split at hwritten
  · simp at hwritten
  cases peer with
  | none => exact (send_eq_returned (wrote_eq_returned hwritten)).1
  | some context =>
      have hread : (readFrame stream).1 = .eof ∨
          (readFrame stream).1 = .failed := by
        simpa using hunread
      simp only at hwritten
      split at hwritten
      next => simp at hwritten
      next => exact (send_eq_returned (wrote_eq_returned hwritten)).1
      next => exact (send_eq_returned (wrote_eq_returned hwritten)).1
      next body unread hframe =>
        rw [hframe] at hread
        simp at hread

theorem requestId_of_read {context : PeerContext} {body : List UInt8}
    {request : Request} (hread : (readFrame stream).1 = .ok body)
    (hdecode : decodeRequest codec body = .ok request)
    (hwritten : (serveConnection codec timeoutsSet (some context) stream
      handler).written = .returned (some (response, frame))) :
    response.payload.requestId = some request.payload.requestId := by
  unfold serveConnection at hwritten
  split at hwritten
  · simp at hwritten
  rcases hframe : readFrame stream with ⟨outcome, unread⟩
  rw [hframe] at hread
  simp only at hread
  rw [hframe, hread] at hwritten
  simp only [hdecode] at hwritten
  exact (send_eq_returned (wrote_eq_returned hwritten)).1

end Agent

/-! ## Both sides -/

namespace Conversation

variable {codec : ProtocolCodec} {talk : Conversation}
  {framed : List UInt8} {response : Response}

theorem result_of_received (hconnected : talk.Connected codec framed)
    (hreads : talk.ReadsBack codec) (hreceived : talk.Received codec response) :
    talk.result codec =
      if response.payload.requestId ≠ some talk.requestId then
        .error (.requestIdMismatch talk.requestId response.payload.requestId)
      else .ok response.payload.body := by
  obtain ⟨hconnect, htimeouts, hsend, hwritten⟩ := hreceived
  obtain ⟨requestId, body, hsent⟩ := exists_send_of_written hwritten
  obtain ⟨-, hversion, hencode⟩ := send_eq_returned hsent
  have hread := hreads.response _ _ hwritten
  have hbound := (encodeFrame_eq_ok_iff.mp hencode).1
  have hdecode : decodeResponse codec (codec.printResponse response) =
      .ok response :=
    decodeBody_eq_ok hbound (hversion ▸ hread.version) hread.response
  have hencoded := hconnected.encoded
  rw [envelope] at hencoded
  rw [result, exchange, hencoded]
  have hreadback := readResponse_of_prefix hencode List.prefix_rfl
  simp only [hconnect, htimeouts, hsend, hreadback, acceptResponse, hdecode]

/-- A received response has the id of the request exactly when the peer was
derived and the request was read whole. -/
theorem requestId_iff (hconnected : talk.Connected codec framed)
    (hreads : talk.ReadsBack codec) (hreceived : talk.Received codec response) :
    response.payload.requestId = some talk.requestId ↔
      talk.peer.isSome ∧ delivered talk.agentReads = framed := by
  obtain ⟨-, -, -, hwritten⟩ := hreceived
  have hencode : encodeFrame (codec.printRequest talk.envelope) =
      .ok framed := hconnected.encoded
  constructor
  · intro hid
    by_contra hnot
    have hunread : talk.peer = none ∨
        (readFrame talk.agentReads).1 = .eof ∨
          (readFrame talk.agentReads).1 = .failed := by
      cases hpeer : talk.peer with
      | none => exact Or.inl rfl
      | some context =>
          right
          apply readFrame_of_short hencode hconnected.requested
          intro hwhole
          exact hnot ⟨by rw [hpeer]; rfl, hwhole⟩
    rw [requestId_of_unread hunread hwritten] at hid
    contradiction
  · rintro ⟨hpeer, hwhole⟩
    obtain ⟨context, hcontext⟩ := Option.isSome_iff_exists.mp hpeer
    rw [served, hcontext] at hwritten
    have hdecode : decodeRequest codec (codec.printRequest talk.envelope) =
        .ok talk.envelope :=
      decodeBody_eq_ok (encodeFrame_eq_ok_iff.mp hencode).1
        hreads.request.version hreads.request.request
    have hread : (readFrame talk.agentReads).1 =
        .ok (codec.printRequest talk.envelope) :=
      readFrame_of_prefix hencode (hwhole ▸ List.prefix_rfl)
    exact requestId_of_read hread hdecode hwritten

/-- A whole frame which the client finds is the one of a response which the
agent has written. -/
theorem findsFrame_iff (hconnected : talk.Connected codec framed) :
    talk.FindsFrame ↔ ∃ response, talk.Received codec response := by
  constructor
  · rintro ⟨hconnect, htimeouts, hsend, payload, hencode⟩
    by_cases hwritten : ∃ response frame,
        (talk.served codec).written = .returned (some (response, frame))
    · obtain ⟨response, frame, hwritten⟩ := hwritten
      obtain ⟨requestId, body, hsent⟩ := exists_send_of_written hwritten
      have hwhole := eq_of_encodeFrame_of_isPrefix hencode
        (send_eq_returned hsent).2.2 (hconnected.answered _ _ hwritten)
      refine ⟨response, hconnect, htimeouts, hsend, ?_⟩
      rw [hwhole]
      exact hwritten
    · have hsilent := hconnected.silent
        fun response frame hframe => hwritten ⟨response, frame, hframe⟩
      rw [hsilent] at hencode
      have hlength := congrArg List.length (encodeFrame_eq_ok_iff.mp hencode).2
      simp only [List.length_nil, List.length_append,
        length_u32ToBeBytes] at hlength
      omega
  · rintro ⟨response, hconnect, htimeouts, hsend, hwritten⟩
    obtain ⟨requestId, body, hsent⟩ := exists_send_of_written hwritten
    exact ⟨hconnect, htimeouts, hsend, _, (send_eq_returned hsent).2.2⟩

/-- Both sides mean the same by a reply exactly when the agent has derived the
peer and read the whole request, or the client finds no whole frame. -/
theorem meansTheSame_iff (hconnected : talk.Connected codec framed)
    (hreads : talk.ReadsBack codec) :
    talk.MeansTheSame codec ↔
      (talk.FindsFrame →
        talk.peer.isSome ∧ delivered talk.agentReads = framed) := by
  rw [findsFrame_iff hconnected]
  constructor
  · intro hmeans hreceived
    obtain ⟨response, hreceived⟩ := hreceived
    rw [← requestId_iff hconnected hreads hreceived]
    by_contra hid
    have hresult := result_of_received hconnected hreads hreceived
    rw [if_pos hid] at hresult
    exact hmeans.unavailable _ hresult response hreceived
  · intro hread
    have hresult : ∀ response, talk.Received codec response →
        talk.result codec = .ok response.payload.body := by
      intro response hreceived
      have hid := (requestId_iff hconnected hreads hreceived).mpr
        (hread ⟨response, hreceived⟩)
      rw [result_of_received hconnected hreads hreceived, hid]
      simp
    constructor
    case error =>
      intro response code hreceived hbody
      rw [hresult response hreceived, hbody]
      exact ⟨rfl, rfl⟩
    case denied =>
      intro response reason hreceived hbody
      rw [hresult response hreceived, hbody]
      exact ⟨rfl, rfl⟩
    case unavailable =>
      intro error herror response hreceived
      rw [hresult response hreceived] at herror
      contradiction

/-! ## A status request -/

def sampleRequest : Request := .current ⟨⟨1⟩, .agentStatus⟩

def sampleRequestText : List UInt8 :=
  TextLines.encode
    ("\x7b\"version\":1,\"payload\":\x7b\"request_id\":1,".toList ++
      "\"body\":\x7b\"op\":\"agent_status\"\x7d\x7d\x7d".toList)

/-- The handler has panicked. -/
def sampleFailure : Response := .current ⟨some ⟨1⟩, .error .internal⟩

def sampleFailureText : List UInt8 :=
  TextLines.encode
    ("\x7b\"version\":1,\"payload\":\x7b\"request_id\":1,".toList ++
      "\"body\":\x7b\"result\":\"error\",".toList ++
      "\"code\":\x7b\"error\":\"internal\"\x7d\x7d\x7d\x7d".toList)

/-- The peer could not be derived. -/
def sampleError : Response := .current ⟨none, .error .internal⟩

def sampleErrorText : List UInt8 :=
  TextLines.encode
    ("\x7b\"version\":1,\"payload\":\x7b\"request_id\":null,".toList ++
      "\"body\":\x7b\"result\":\"error\",".toList ++
      "\"code\":\x7b\"error\":\"internal\"\x7d\x7d\x7d\x7d".toList)

/-- What `serde_json` does with the three messages. -/
def sampleCodec : ProtocolCodec where
  printRequest request :=
    if request = sampleRequest then sampleRequestText else []
  printResponse response :=
    if response = sampleFailure then sampleFailureText
    else if response = sampleError then sampleErrorText
    else []
  parseVersion body :=
    if body ∈ [sampleRequestText, sampleFailureText, sampleErrorText] then
      some 1
    else none
  parseRequestId body :=
    if body ∈ [sampleRequestText, sampleFailureText] then some ⟨1⟩ else none
  parseRequest body :=
    if body = sampleRequestText then some sampleRequest else none
  parseResponse body :=
    if body = sampleFailureText then some sampleFailure
    else if body = sampleErrorText then some sampleError
    else none

def sampleFrame (payload : List UInt8) : List UInt8 :=
  u32ToBeBytes payload.length ++ payload

def sampleConversation (peer : Option PeerContext) (answer : List UInt8) :
    Conversation where
  requestId := ⟨1⟩
  request := .agentStatus
  transport := ⟨"/run/eltanin/agent.sock", .ok (), .ok (), .ok (),
    [.chunk (sampleFrame answer)]⟩
  timeoutsSet := true
  peer := peer
  agentReads := [.chunk (sampleFrame sampleRequestText)]
  handler _ _ := .panicked

def samplePeer : PeerContext where
  credential := ⟨4242, 1000, 1000⟩
  consistency := .consistent
  observed :=
    { workload :=
        { pid := 4242
          processStart := .unsupported
          uid := .unsupported
          gid := .unsupported
          executablePath := .unsupported
          executableHash := .unsupported
          ancestry := [] }
      cgroupPath := .unsupported
      namespaceHint := .unsupported
      containerHint := .unsupported
      sessionOrigin := .unsupported }

theorem served_sampleFailure :
    ((sampleConversation (some samplePeer) sampleFailureText).served
      sampleCodec).written =
        .returned (some (sampleFailure, sampleFrame sampleFailureText)) := by
  decide +kernel

theorem served_sampleError :
    ((sampleConversation none sampleErrorText).served sampleCodec).written =
        .returned (some (sampleError, sampleFrame sampleErrorText)) := by
  decide +kernel

theorem encodeRequest_sample :
    encodeRequest sampleCodec sampleRequest =
      .ok (sampleFrame sampleRequestText) := by
  decide +kernel

theorem readsRequest_sample : sampleCodec.ReadsRequest sampleRequest :=
  ⟨by decide +kernel, by decide +kernel⟩

theorem delivered_chunk {bytes : List UInt8} :
    delivered [.chunk bytes] = bytes := by
  by_cases hempty : bytes = []
  · simp [delivered, hempty]
  · simp [delivered, hempty]

theorem connected_sample {peer : Option PeerContext} {answer : List UInt8}
    {response : Response}
    (hserved : ((sampleConversation peer answer).served sampleCodec).written =
      .returned (some (response, sampleFrame answer))) :
    (sampleConversation peer answer).Connected sampleCodec
      (sampleFrame sampleRequestText) where
  encoded := encodeRequest_sample
  requested := by
    rw [sampleConversation, delivered_chunk]
  answered := by
    intro other frame hother
    rw [hserved] at hother
    simp only [Completion.returned.injEq, Option.some.injEq,
      Prod.mk.injEq] at hother
    rw [← hother.2, sampleConversation, delivered_chunk]
  silent := by
    intro hsilent
    exact (hsilent _ _ hserved).elim

theorem readsBack_sample {peer : Option PeerContext} {answer : List UInt8}
    {response : Response}
    (hserved : ((sampleConversation peer answer).served sampleCodec).written =
      .returned (some (response, sampleFrame answer)))
    (hreads : sampleCodec.ReadsResponse response) :
    (sampleConversation peer answer).ReadsBack sampleCodec where
  request := readsRequest_sample
  response := by
    intro other frame hother
    rw [hserved] at hother
    simp only [Completion.returned.injEq, Option.some.injEq,
      Prod.mk.injEq] at hother
    rw [← hother.1]
    exact hreads

theorem meansTheSame_sampleFailure :
    (sampleConversation (some samplePeer) sampleFailureText).Received
        sampleCodec sampleFailure ∧
      (sampleConversation (some samplePeer) sampleFailureText).MeansTheSame
        sampleCodec := by
  constructor
  · refine ⟨rfl, rfl, rfl, ?_⟩
    rw [served_sampleFailure, sampleConversation, delivered_chunk]
  · exact (meansTheSame_iff (connected_sample served_sampleFailure)
      (readsBack_sample served_sampleFailure
        ⟨by decide +kernel, by decide +kernel⟩)).mpr
      fun _ => ⟨rfl, delivered_chunk⟩

/-- The peer cannot be derived.  The agent says so, and the client takes it for
an agent which is not available. -/
theorem not_meansTheSame_sampleError :
    (sampleConversation none sampleErrorText).Connected sampleCodec
        (sampleFrame sampleRequestText) ∧
      (sampleConversation none sampleErrorText).ReadsBack sampleCodec ∧
      (sampleConversation none sampleErrorText).Received sampleCodec
        sampleError ∧
      (sampleConversation none sampleErrorText).result sampleCodec =
        .error (.requestIdMismatch ⟨1⟩ none) ∧
      ¬(sampleConversation none sampleErrorText).MeansTheSame
        sampleCodec := by
  have hreceived : (sampleConversation none sampleErrorText).Received
      sampleCodec sampleError := by
    refine ⟨rfl, rfl, rfl, ?_⟩
    rw [served_sampleError, sampleConversation, delivered_chunk]
  have hresult : (sampleConversation none sampleErrorText).result
      sampleCodec = .error (.requestIdMismatch ⟨1⟩ none) := by
    decide +kernel
  refine ⟨connected_sample served_sampleError,
    readsBack_sample served_sampleError
      ⟨by decide +kernel, by decide +kernel⟩, hreceived, hresult, ?_⟩
  intro hmeans
  exact hmeans.unavailable _ hresult _ hreceived

end Conversation

end Eltanin.Cli
