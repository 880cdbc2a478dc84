import Eltanin.FramingModel
import Eltanin.PeerModel

/-!
# Serving a connection

One frame is read, its request dispatched, and one frame written.  Whatever
goes wrong before the handler is called is answered with an error, under the
id of the request only where the id can still be read.
-/

namespace Eltanin.Agent

open Eltanin.Core Protocol ByteStream

inductive ReadOutcome where
  | complete (bytes : List UInt8)
  | eof
  | short
  deriving DecidableEq, Repr

def readFull (len : ℕ) (stream : List Delivery) :
    Except String ReadOutcome × List Delivery :=
  match fill len [] stream with
  | (.complete bytes, unread) => (.ok (.complete bytes), unread)
  | (.ended [], unread) => (.ok .eof, unread)
  | (.ended (_ :: _), unread) => (.ok .short, unread)
  | (.failed reason, unread) => (.error reason, unread)

inductive FrameRead where
  | eof
  | failed
  | oversized
  | ok (body : List UInt8)
  deriving DecidableEq, Repr

def readFrame (stream : List Delivery) : FrameRead × List Delivery :=
  match readFull 4 stream with
  | (.ok .eof, unread) => (.eof, unread)
  | (.ok .short, unread) => (.failed, unread)
  | (.error _, unread) => (.failed, unread)
  | (.ok (.complete header), unread) =>
      match decodeFrameLen header with
      | .error _ => (.oversized, unread)
      | .ok len =>
          match readFull len unread with
          | (.ok (.complete body), rest) => (.ok body, rest)
          | (.ok .eof, rest) => (.failed, rest)
          | (.ok .short, rest) => (.failed, rest)
          | (.error _, rest) => (.failed, rest)

/-- The response which is written, and its frame.  A response beyond the bound
is replaced by an internal error; were that one too long, `expect` would
panic.  That the write itself may fail is left to who reads it. -/
def send (codec : ProtocolCodec) (requestId : Option RequestId)
    (body : AgentResponse) : Completion (Response × List UInt8) :=
  let response := Versioned.current ⟨requestId, body⟩
  match encodeResponse codec response with
  | .ok framed => .returned (response, framed)
  | .error _ =>
      let fallback := Versioned.current ⟨requestId, .error .internal⟩
      match encodeResponse codec fallback with
      | .ok framed => .returned (fallback, framed)
      | .error _ => .panicked

def fail (codec : ProtocolCodec) (requestId : Option RequestId)
    (code : ErrorCode) : Completion (Response × List UInt8) :=
  send codec requestId (.error code)

/-- What a connection comes to: the request the handler was called with, the
response which was written, and what was left of the stream. -/
structure Served where
  dispatched : Option (ClientRequest × PeerContext)
  written : Completion (Option (Response × List UInt8))
  unread : List Delivery

def wrote : Completion (Response × List UInt8) →
    Completion (Option (Response × List UInt8))
  | .returned sent => .returned (some sent)
  | .panicked => .panicked

def refuse (codec : ProtocolCodec) (body : List UInt8)
    (error : ProtocolError) : Completion (Response × List UInt8) :=
  match error with
  | .version unsupported =>
      fail codec (peekRequestId codec body)
        (.unsupportedVersion unsupported.found unsupported.expected)
  | .malformed => fail codec (peekRequestId codec body) .malformedRequest
  | .framing (.oversized _ _) =>
      fail codec (peekRequestId codec body) .oversized

/-- The handler's answer, or an internal error when it unwinds. -/
def caught : Completion AgentResponse → AgentResponse
  | .returned response => response
  | .panicked => .error .internal

/-- `timeoutsSet` says whether the timeouts could be applied, and `peer` is
what the derivation of the peer returned. -/
def serveConnection (codec : ProtocolCodec) (timeoutsSet : Bool)
    (peer : Option PeerContext) (stream : List Delivery)
    (handler : ClientRequest → PeerContext → Completion AgentResponse) :
    Served :=
  if timeoutsSet = false then ⟨none, .returned none, stream⟩
  else
    match peer with
    | none => ⟨none, wrote (fail codec none .internal), stream⟩
    | some peer =>
        match readFrame stream with
        | (.eof, unread) => ⟨none, .returned none, unread⟩
        | (.failed, unread) =>
            ⟨none, wrote (fail codec none .malformedRequest), unread⟩
        | (.oversized, unread) =>
            ⟨none, wrote (fail codec none .oversized), unread⟩
        | (.ok body, unread) =>
            match decodeRequest codec body with
            | .error error => ⟨none, wrote (refuse codec body error), unread⟩
            | .ok request =>
                ⟨some (request.payload.body, peer),
                  wrote (send codec (some request.payload.requestId)
                    (caught (handler request.payload.body peer))),
                  unread⟩

/-! ## Reading frames -/

section ReadFrame

variable {len : ℕ} {stream : List Delivery} {framed payload : List UInt8}

theorem readFull_of_le (hle : len ≤ (delivered stream).length) :
    ∃ unread, readFull len stream =
        (.ok (.complete ((delivered stream).take len)), unread) ∧
      delivered unread = (delivered stream).drop len := by
  obtain ⟨unread, hfill, hleft⟩ := exists_fill_of_le hle
  exact ⟨unread, by rw [readFull, hfill], hleft⟩

theorem readFull_of_lt (hlt : (delivered stream).length < len)
    (bytes : List UInt8) :
    (readFull len stream).1 ≠ .ok (.complete bytes) := by
  unfold readFull
  rcases fill_nil_of_lt hlt with hended | ⟨reason, hfailed⟩
  · split
    next hread =>
      rw [hread] at hended
      contradiction
    all_goals simp
  · split
    next hread =>
      rw [hread] at hfailed
      contradiction
    all_goals simp

theorem readFrame_of_header {unread : List Delivery} {header : List UInt8}
    (hheader : readFull 4 stream = (.ok (.complete header), unread))
    (hlen : decodeFrameLen header = .ok len) :
    (readFrame stream).1 =
      match (readFull len unread).1 with
      | .ok (.complete body) => .ok body
      | _ => .failed := by
  rw [readFrame, hheader]
  simp only [hlen]
  rcases readFull len unread with ⟨outcome, rest⟩
  rcases outcome with reason | outcome
  · rfl
  · cases outcome <;> rfl

theorem readFrame_of_prefix (hencode : encodeFrame payload = .ok framed)
    (hbegins : framed <+: delivered stream) :
    (readFrame stream).1 = .ok payload := by
  obtain ⟨header, unread, rest, hheader, hlen, hbody⟩ :=
    exists_fill_of_frame hencode hbegins
  have hread : readFull 4 stream = (.ok (.complete header), unread) := by
    rw [readFull, hheader]
  rw [readFrame_of_header hread hlen, readFull, hbody]

theorem readFrame_of_short (hencode : encodeFrame payload = .ok framed)
    (hfirst : delivered stream <+: framed)
    (hshort : delivered stream ≠ framed) :
    (readFrame stream).1 = .eof ∨ (readFrame stream).1 = .failed := by
  obtain ⟨hbound, hframed⟩ := encodeFrame_eq_ok_iff.mp hencode
  have hlength := length_u32ToBeBytes payload.length
  have hlt : (delivered stream).length < framed.length := by
    rcases Nat.lt_or_ge (delivered stream).length framed.length with
      hlt | hge
    · exact hlt
    · exact (hshort (hfirst.eq_of_length_le hge)).elim
  rw [hframed, List.length_append, hlength] at hlt
  by_cases hheader : 4 ≤ (delivered stream).length
  · obtain ⟨unread, hread, hleft⟩ := readFull_of_le hheader
    have htake : (delivered stream).take 4 = u32ToBeBytes payload.length := by
      rw [List.prefix_iff_eq_take.mp hfirst, List.take_take,
        Nat.min_eq_left hheader, hframed, List.take_left' hlength]
    rw [htake] at hread
    right
    rw [readFrame_of_header hread (decodeFrameLen_toBeBytes hbound)]
    have hfew : (delivered unread).length < payload.length := by
      rw [hleft, List.length_drop]
      omega
    split
    next body hbody => exact (readFull_of_lt hfew body hbody).elim
    next => rfl
  · have hnot := readFull_of_lt (Nat.not_le.mp hheader)
    rw [readFrame]
    rcases hfull : readFull 4 stream with ⟨outcome, unread⟩
    rw [hfull] at hnot
    rcases outcome with reason | outcome
    · right
      rfl
    cases outcome with
    | complete bytes => exact (hnot bytes rfl).elim
    | eof =>
        left
        rfl
    | short =>
        right
        rfl

end ReadFrame

end Eltanin.Agent
