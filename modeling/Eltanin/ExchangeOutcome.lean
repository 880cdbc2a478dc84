import Eltanin.ConnectionContract
import Eltanin.ReplyAgreement

/-!
# What an exchange returns

An answer which `exchange` returns is the handler's answer to just this
request, or the internal error which stands in for it, and it is returned
exactly when both messages come through whole.  Whatever is cut short on the
way, no other answer takes its place.
-/

namespace Eltanin.Cli

open Eltanin.Core Protocol Agent ByteStream

/-! ## Reading a response -/

section Reading

variable {len : ℕ} {stream unread : List Delivery} {bytes body : List UInt8}

theorem readExact_eq_ok (hread : readExact len stream = (.ok bytes, unread)) :
    len ≤ (delivered stream).length ∧ bytes = (delivered stream).take len ∧
      delivered unread = (delivered stream).drop len := by
  by_cases hlong : len ≤ (delivered stream).length
  · obtain ⟨left, hexact, hleft⟩ := readExact_of_le hlong
    rw [hread, Prod.mk.injEq, Except.ok.injEq] at hexact
    obtain ⟨hbytes, hunread⟩ := hexact
    exact ⟨hlong, hbytes, hunread ▸ hleft⟩
  · unfold readExact at hread
    rcases fill_nil_of_lt (Nat.not_le.mp hlong) with hended | hfailed
    · split at hread
      next found _ hfill =>
        rw [hfill] at hended
        contradiction
      next => simp at hread
      next => simp at hread
    · obtain ⟨reason, hfailed⟩ := hfailed
      split at hread
      next found _ hfill =>
        rw [hfill] at hfailed
        contradiction
      next => simp at hread
      next => simp at hread

/-- What is read as a response is the body of a frame with which the stream
begins. -/
theorem readResponse_eq_ok (hread : readResponse stream = .ok body) :
    ∃ framed, encodeFrame body = .ok framed ∧
      framed <+: delivered stream := by
  unfold readResponse at hread
  split at hread
  next => contradiction
  next header rest hheader =>
    obtain ⟨hfour, htake, hdrop⟩ := readExact_eq_ok hheader
    split at hread
    next => contradiction
    next len hdecode =>
      rcases decodeFrameLen_cases header with ⟨hlong, -⟩ | ⟨hfound, hfits⟩
      · rw [hlong] at hdecode
        contradiction
      have hlen : u32FromBeBytes header = len := by
        rw [hfound, Except.ok.injEq] at hdecode
        exact hdecode
      have hbody : readExact len rest =
          (.ok body, (readExact len rest).2) := Prod.ext hread rfl
      obtain ⟨hlong, htaken, -⟩ := readExact_eq_ok hbody
      have hheaderLength : header.length = 4 := by
        rw [htake, List.length_take, Nat.min_eq_left hfour]
      have hbodyLength : body.length = len := by
        rw [htaken, List.length_take, Nat.min_eq_left hlong]
      refine ⟨_, encodeFrame_eq_ok_iff.mpr ⟨by omega, rfl⟩, ?_⟩
      rw [hbodyLength, ← hlen, u32ToBeBytes_fromBeBytes hheaderLength,
        htaken, hdrop, htake]
      refine ⟨((delivered stream).drop 4).drop len, ?_⟩
      rw [List.append_assoc, List.take_append_drop, List.take_append_drop]

end Reading

namespace Conversation

variable {codec : ProtocolCodec} {talk : Conversation}
  {framed : List UInt8} {answer : AgentResponse}

/-! ## The client's side -/

/-- The steps of an exchange which has returned an answer. -/
theorem result_eq_ok (hresult : talk.result codec = .ok answer) :
    talk.transport.connect = .ok () ∧
      talk.transport.setTimeouts = .ok () ∧ talk.transport.send = .ok () ∧
      ∃ body, readResponse talk.transport.reads = .ok body ∧
        acceptResponse codec talk.requestId body = .ok answer := by
  unfold result exchange at hresult
  split at hresult
  next => contradiction
  next =>
    split at hresult
    next => contradiction
    next hconnect =>
      split at hresult
      next => contradiction
      next htimeouts =>
        split at hresult
        next => contradiction
        next hsend =>
          split at hresult
          next => contradiction
          next body hread =>
            exact ⟨hconnect, htimeouts, hsend, body, hread, hresult⟩

theorem findsFrame_of_result_eq_ok (hconnected : talk.Connected codec framed)
    (hresult : talk.result codec = .ok answer) : talk.FindsFrame := by
  obtain ⟨hconnect, htimeouts, hsend, body, hread, -⟩ :=
    result_eq_ok hresult
  obtain ⟨found, hencode, hbegins⟩ := readResponse_eq_ok hread
  refine ⟨hconnect, htimeouts, hsend, body, ?_⟩
  by_cases hwritten : ∃ response frame,
      (talk.served codec).written = .returned (some (response, frame))
  · obtain ⟨response, frame, hwritten⟩ := hwritten
    have hreads := hconnected.answered response frame hwritten
    obtain ⟨requestId, sent, hsent⟩ := exists_send_of_written hwritten
    have hwhole := eq_of_encodeFrame_of_isPrefix hencode
      (send_eq_returned hsent).2.2 (hbegins.trans hreads)
    have hsame : delivered talk.transport.reads = found := by
      apply hbegins.eq_of_length_le _ |>.symm
      rw [hwhole]
      exact hreads.length_le
    rw [hsame]
    exact hencode
  · have hsilent := hconnected.silent
      fun response frame hframe => hwritten ⟨response, frame, hframe⟩
    rw [hsilent, List.prefix_nil] at hbegins
    rw [hsilent, ← hbegins]
    exact hencode

theorem result_eq_ok_iff_received (hconnected : talk.Connected codec framed)
    (hreads : talk.ReadsBack codec) :
    talk.result codec = .ok answer ↔
      ∃ response, talk.Received codec response ∧
        response.payload.requestId = some talk.requestId ∧
        response.payload.body = answer := by
  constructor
  · intro hresult
    obtain ⟨response, hreceived⟩ := (findsFrame_iff hconnected).mp
      (findsFrame_of_result_eq_ok hconnected hresult)
    have hreturned := result_of_received hconnected hreads hreceived
    rw [hresult] at hreturned
    by_cases hid : response.payload.requestId = some talk.requestId
    · rw [if_neg (not_not_intro hid), Except.ok.injEq] at hreturned
      exact ⟨response, hreceived, hid, hreturned.symm⟩
    · rw [if_pos hid] at hreturned
      contradiction
  · rintro ⟨response, hreceived, hid, rfl⟩
    rw [result_of_received hconnected hreads hreceived,
      if_neg (not_not_intro hid)]

/-! ## Both sides -/

/-- What `send` makes of the answer of the handler. -/
def answerTo (codec : ProtocolCodec) (requestId : RequestId)
    (answer : AgentResponse) : AgentResponse :=
  match encodeResponse codec (.current ⟨some requestId, answer⟩) with
  | .ok _ => answer
  | .error _ => .error .internal

theorem body_of_send {requestId : RequestId} {response : Response}
    {frame : List UInt8}
    (hsend : send codec (some requestId) answer =
      .returned (response, frame)) :
    response.payload.body = answerTo codec requestId answer := by
  unfold answerTo
  unfold send at hsend
  cases hencode : encodeResponse codec
      (.current ⟨some requestId, answer⟩) with
  | ok framed =>
      simp only [hencode] at hsend
      cases hsend
      rfl
  | error error =>
      simp only [hencode] at hsend
      cases hfallback : encodeResponse codec
          (.current ⟨some requestId, .error .internal⟩) with
      | ok framed =>
          simp only [hfallback] at hsend
          cases hsend
          rfl
      | error error =>
          simp only [hfallback] at hsend
          contradiction

theorem served_of_whole (hconnected : talk.Connected codec framed)
    (hreads : talk.ReadsBack codec) {context : PeerContext}
    (htimeouts : talk.timeoutsSet = true)
    (hpeer : talk.peer = some context)
    (hwhole : delivered talk.agentReads = framed) :
    (talk.served codec).dispatched = some (talk.request, context) ∧
      (talk.served codec).written =
        wrote (send codec (some talk.requestId)
          (caught (talk.handler talk.request context))) := by
  have hencode : encodeFrame (codec.printRequest talk.envelope) =
      .ok framed := hconnected.encoded
  have hread : (readFrame talk.agentReads).1 =
      .ok (codec.printRequest talk.envelope) :=
    readFrame_of_prefix hencode (hwhole ▸ List.prefix_rfl)
  have hdecode : decodeRequest codec (codec.printRequest talk.envelope) =
      .ok talk.envelope :=
    decodeBody_eq_ok (encodeFrame_eq_ok_iff.mp hencode).1
      hreads.request.version hreads.request.request
  unfold served serveConnection
  rw [htimeouts, hpeer]
  simp only [Bool.true_eq_false, if_false]
  rcases hframe : readFrame talk.agentReads with ⟨outcome, unread⟩
  rw [hframe] at hread
  simp only at hread
  subst hread
  simp only [hdecode]
  exact ⟨rfl, rfl⟩

theorem timeoutsSet_of_written {response : Response} {frame : List UInt8}
    (hwritten : (talk.served codec).written =
      .returned (some (response, frame))) : talk.timeoutsSet = true := by
  by_contra hnot
  rw [Bool.not_eq_true] at hnot
  unfold served serveConnection at hwritten
  rw [hnot, if_pos rfl] at hwritten
  simp at hwritten

theorem answer_of_received (hconnected : talk.Connected codec framed)
    (hreads : talk.ReadsBack codec) {response : Response}
    {context : PeerContext} (hreceived : talk.Received codec response)
    (hpeer : talk.peer = some context)
    (hwhole : delivered talk.agentReads = framed) :
    (talk.served codec).dispatched = some (talk.request, context) ∧
      response.payload.body = answerTo codec talk.requestId
        (caught (talk.handler talk.request context)) := by
  obtain ⟨-, -, -, hwritten⟩ := hreceived
  obtain ⟨hdispatched, hsent⟩ := served_of_whole hconnected hreads
    (timeoutsSet_of_written hwritten) hpeer hwhole
  rw [hsent] at hwritten
  exact ⟨hdispatched, body_of_send (wrote_eq_returned hwritten)⟩

theorem dispatched_of_result (hconnected : talk.Connected codec framed)
    (hreads : talk.ReadsBack codec) (hresult : talk.result codec = .ok answer) :
    talk.FindsFrame ∧ ∃ context, talk.peer = some context ∧
      delivered talk.agentReads = framed ∧
      (talk.served codec).dispatched = some (talk.request, context) ∧
      answer = answerTo codec talk.requestId
        (caught (talk.handler talk.request context)) := by
  obtain ⟨response, hreceived, hid, rfl⟩ :=
    (result_eq_ok_iff_received hconnected hreads).mp hresult
  obtain ⟨hpeer, hwhole⟩ :=
    (requestId_iff hconnected hreads hreceived).mp hid
  obtain ⟨context, hcontext⟩ := Option.isSome_iff_exists.mp hpeer
  obtain ⟨hdispatched, hbody⟩ :=
    answer_of_received hconnected hreads hreceived hcontext hwhole
  exact ⟨(findsFrame_iff hconnected).mpr ⟨response, hreceived⟩, context,
    hcontext, hwhole, hdispatched, hbody⟩

theorem result_of_whole (hconnected : talk.Connected codec framed)
    (hreads : talk.ReadsBack codec) {context : PeerContext}
    (hfinds : talk.FindsFrame) (hpeer : talk.peer = some context)
    (hwhole : delivered talk.agentReads = framed) :
    talk.result codec = .ok (answerTo codec talk.requestId
      (caught (talk.handler talk.request context))) := by
  obtain ⟨response, hreceived⟩ := (findsFrame_iff hconnected).mp hfinds
  have hid := (requestId_iff hconnected hreads hreceived).mpr
    ⟨by rw [hpeer]; rfl, hwhole⟩
  exact (result_eq_ok_iff_received hconnected hreads).mpr
    ⟨response, hreceived, hid,
      (answer_of_received hconnected hreads hreceived hpeer hwhole).2⟩

/-- An exchange returns an answer exactly when the agent has derived the peer
and read the request whole and the client finds the whole frame, and then it
is the handler's answer to this request of this peer. -/
theorem exchange_returns_iff (hconnected : talk.Connected codec framed)
    (hreads : talk.ReadsBack codec) :
    talk.result codec = .ok answer ↔
      talk.FindsFrame ∧ ∃ context, talk.peer = some context ∧
        delivered talk.agentReads = framed ∧
        (talk.served codec).dispatched = some (talk.request, context) ∧
        answer = answerTo codec talk.requestId
          (caught (talk.handler talk.request context)) := by
  constructor
  · exact dispatched_of_result hconnected hreads
  · rintro ⟨hfinds, context, hpeer, hwhole, -, rfl⟩
    exact result_of_whole hconnected hreads hfinds hpeer hwhole

theorem sampleFailure_returned_iff :
    (sampleConversation (some samplePeer) sampleFailureText).result
        sampleCodec = .ok (.error .internal) ↔
      (sampleConversation (some samplePeer) sampleFailureText).FindsFrame ∧
        ∃ context, some samplePeer = some context ∧
          delivered [.chunk (sampleFrame sampleRequestText)] =
            sampleFrame sampleRequestText ∧
          ((sampleConversation (some samplePeer) sampleFailureText).served
            sampleCodec).dispatched = some (.agentStatus, context) ∧
          AgentResponse.error .internal =
            answerTo sampleCodec ⟨1⟩ (caught .panicked) :=
  exchange_returns_iff (connected_sample served_sampleFailure)
    (readsBack_sample served_sampleFailure
      ⟨by decide +kernel, by decide +kernel⟩)

end Conversation

end Eltanin.Cli
