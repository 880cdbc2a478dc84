import Eltanin.FailureModel
import Eltanin.FramingModel

/-!
# The client of the agent

An exchange opens a connection, sends one request and reads one response,
which must echo the id of the request.
-/

namespace Eltanin.Cli

open Eltanin.Core Protocol ByteStream

def defaultSocketPath : String := "/run/eltanin/agent.sock"

/-- The path which `ELTANIN_AGENT_SOCKET` gives, if it is set; what is set need
not be UTF-8. -/
def fromEnv : Option (Option String) → Except ClientError String
  | none => .ok defaultSocketPath
  | some none => .error .socketPathNotUtf8
  | some (some path) => .ok path

/-- What happens to the connection of one exchange, up to its reads. -/
structure Transport where
  socketPath : String
  connect : Except String Unit
  setTimeouts : Except String Unit
  send : Except String Unit
  reads : List Delivery

/-- `Read::read_exact`; the stream after it. -/
def readExact (len : ℕ) (stream : List Delivery) :
    Except ClientError (List UInt8) × List Delivery :=
  match fill len [] stream with
  | (.complete bytes, unread) => (.ok bytes, unread)
  | (.ended _, unread) =>
      (.error (.io "failed to fill whole buffer"), unread)
  | (.failed reason, unread) => (.error (.io reason), unread)

def readResponse (stream : List Delivery) :
    Except ClientError (List UInt8) :=
  match readExact 4 stream with
  | (.error error, _) => .error error
  | (.ok header, unread) =>
      match decodeFrameLen header with
      | .error error =>
          .error (.protocol (ProtocolError.framing error).display)
      | .ok len => (readExact len unread).1

def acceptResponse (codec : ProtocolCodec) (requestId : RequestId)
    (body : List UInt8) : Except ClientError AgentResponse :=
  match decodeResponse codec body with
  | .error error => .error (.protocol error.display)
  | .ok response =>
      if response.payload.requestId ≠ some requestId then
        .error (.requestIdMismatch requestId response.payload.requestId)
      else .ok response.payload.body

/-- `requestId` is the next one of the process. -/
def exchange (codec : ProtocolCodec) (requestId : RequestId)
    (request : ClientRequest) (transport : Transport) :
    Except ClientError AgentResponse :=
  match encodeRequest codec (.current ⟨requestId, request⟩) with
  | .error error => .error (.protocol (ProtocolError.framing error).display)
  | .ok _ =>
      match transport.connect with
      | .error reason => .error (.connect transport.socketPath reason)
      | .ok () =>
          match transport.setTimeouts with
          | .error reason => .error (.io reason)
          | .ok () =>
              match transport.send with
              | .error reason => .error (.io reason)
              | .ok () =>
                  match readResponse transport.reads with
                  | .error error => .error error
                  | .ok body => acceptResponse codec requestId body

theorem readExact_of_le {len : ℕ} {stream : List Delivery}
    (hle : len ≤ (delivered stream).length) :
    ∃ unread, readExact len stream =
        (.ok ((delivered stream).take len), unread) ∧
      delivered unread = (delivered stream).drop len := by
  obtain ⟨unread, hfill, hleft⟩ := exists_fill_of_le hle
  exact ⟨unread, by rw [readExact, hfill], hleft⟩

theorem readResponse_of_prefix {stream : List Delivery}
    {payload framed : List UInt8}
    (hencode : encodeFrame payload = .ok framed)
    (hbegins : framed <+: delivered stream) :
    readResponse stream = .ok payload := by
  obtain ⟨header, unread, rest, hheader, hlen, hbody⟩ :=
    exists_fill_of_frame hencode hbegins
  simp only [readResponse, readExact, hheader, hlen, hbody]

end Eltanin.Cli
