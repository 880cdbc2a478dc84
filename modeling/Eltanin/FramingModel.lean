import Eltanin.ByteStream
import Eltanin.ProtocolModel

/-!
# Frames

A frame is the length of its body, as four bytes with the highest first, and
the body.  A length beyond the bound is refused before the body is read, and
the version of a body is looked at before anything else in it.  The functions
of `serde_json` are those of a `ProtocolCodec`.
-/

namespace Eltanin.Protocol

open Eltanin.Core ByteStream

def maxFrameBytes : ℕ := 64 * 1024

inductive FramingError where
  | oversized (len max : ℕ)
  deriving DecidableEq, Repr

structure UnsupportedVersion where
  found : UInt16
  expected : UInt16
  deriving DecidableEq, Repr

inductive ProtocolError where
  | framing (error : FramingError)
  | malformed
  | version (error : UnsupportedVersion)
  deriving DecidableEq, Repr

/-- The `Display` of the errors. -/
def ProtocolError.display : ProtocolError → String
  | .framing (.oversized len max) =>
      "frame length " ++ toString len ++ " exceeds the maximum " ++
        toString max
  | .malformed => "request body is malformed or unrecognized"
  | .version error =>
      "unsupported domain schema version: found " ++ toString error.found ++
        ", expected " ++ toString error.expected

/-- What `serde_json` prints the envelopes as, and what it reads from a body:
only its version, only its request id, or all of it. -/
structure ProtocolCodec where
  printRequest : Request → List UInt8
  printResponse : Response → List UInt8
  parseVersion : List UInt8 → Option UInt16
  parseRequestId : List UInt8 → Option RequestId
  parseRequest : List UInt8 → Option Request
  parseResponse : List UInt8 → Option Response

/-! ## Frames -/

def u32ToBeBytes (len : ℕ) : List UInt8 :=
  [UInt8.ofNat (len / 16777216), UInt8.ofNat (len / 65536),
    UInt8.ofNat (len / 256), UInt8.ofNat len]

def u32FromBeBytes (header : List UInt8) : ℕ :=
  header.foldl (fun len byte => 256 * len + byte.toNat) 0

def decodeFrameLen (header : List UInt8) : Except FramingError ℕ :=
  let len := u32FromBeBytes header
  if maxFrameBytes < len then .error (.oversized len maxFrameBytes)
  else .ok len

def encodeFrame (payload : List UInt8) : Except FramingError (List UInt8) :=
  if maxFrameBytes < payload.length then
    .error (.oversized payload.length maxFrameBytes)
  else .ok (u32ToBeBytes payload.length ++ payload)

/-! ## Bodies -/

section Codec

variable (codec : ProtocolCodec)

def peekVersion (body : List UInt8) : Option UInt16 :=
  codec.parseVersion body

def peekRequestId (body : List UInt8) : Option RequestId :=
  codec.parseRequestId body

/-- The common part of `decode_request` and `decode_response`. -/
def decodeBody {α : Type} (parse : List UInt8 → Option α)
    (body : List UInt8) : Except ProtocolError α :=
  if maxFrameBytes < body.length then
    .error (.framing (.oversized body.length maxFrameBytes))
  else
    match peekVersion codec body with
    | none => .error .malformed
    | some version =>
        if version ≠ domainSchemaVersion then
          .error (.version ⟨version, domainSchemaVersion⟩)
        else
          match parse body with
          | none => .error .malformed
          | some message => .ok message

def decodeRequest (body : List UInt8) : Except ProtocolError Request :=
  decodeBody codec codec.parseRequest body

def decodeResponse (body : List UInt8) : Except ProtocolError Response :=
  decodeBody codec codec.parseResponse body

def encodeRequest (request : Request) : Except FramingError (List UInt8) :=
  encodeFrame (codec.printRequest request)

def encodeResponse (response : Response) :
    Except FramingError (List UInt8) :=
  encodeFrame (codec.printResponse response)

/-! ## What is printed is read back -/

/-- The codec reads this request back as what it was printed for. -/
structure ProtocolCodec.ReadsRequest (request : Request) : Prop where
  version : codec.parseVersion (codec.printRequest request) =
    some request.version
  request : codec.parseRequest (codec.printRequest request) = some request

structure ProtocolCodec.ReadsResponse (response : Response) : Prop where
  version : codec.parseVersion (codec.printResponse response) =
    some response.version
  response : codec.parseResponse (codec.printResponse response) =
    some response

end Codec

variable {codec : ProtocolCodec} {payload frame : List UInt8}

theorem length_u32ToBeBytes (len : ℕ) : (u32ToBeBytes len).length = 4 := rfl

theorem u32FromBeBytes_toBeBytes {len : ℕ} (hlen : len < 4294967296) :
    u32FromBeBytes (u32ToBeBytes len) = len := by
  simp only [u32FromBeBytes, u32ToBeBytes, List.foldl_cons, List.foldl_nil,
    UInt8.toNat_ofNat']
  omega

theorem encodeFrame_eq_ok_iff :
    encodeFrame payload = .ok frame ↔
      payload.length ≤ maxFrameBytes ∧
        frame = u32ToBeBytes payload.length ++ payload := by
  unfold encodeFrame
  by_cases hlong : maxFrameBytes < payload.length
  · simp [hlong]
  · simp [hlong, Nat.not_lt.mp hlong, eq_comm]

theorem decodeFrameLen_toBeBytes {len : ℕ} (hlen : len ≤ maxFrameBytes) :
    decodeFrameLen (u32ToBeBytes len) = .ok len := by
  have hrange : len < 4294967296 := by
    unfold maxFrameBytes at hlen
    omega
  rw [decodeFrameLen, u32FromBeBytes_toBeBytes hrange]
  exact if_neg (Nat.not_lt.mpr hlen)

/-- The two reads of a frame at the beginning of a stream, its header and its
body.  What follows the frame is not looked at. -/
theorem exists_fill_of_frame {stream : List Delivery}
    (hencode : encodeFrame payload = .ok frame)
    (hbegins : frame <+: delivered stream) :
    ∃ header unread rest,
      fill 4 [] stream = (.complete header, unread) ∧
        decodeFrameLen header = .ok payload.length ∧
        fill payload.length [] unread = (.complete payload, rest) := by
  obtain ⟨hbound, rfl⟩ := encodeFrame_eq_ok_iff.mp hencode
  obtain ⟨rest, hrest⟩ := hbegins
  rw [List.append_assoc] at hrest
  have hlength := length_u32ToBeBytes payload.length
  have hfour : 4 ≤ (delivered stream).length := by
    rw [← hrest, List.length_append, hlength]
    omega
  obtain ⟨unread, hheader, hleft⟩ := exists_fill_of_le hfour
  rw [← hrest, List.take_left' hlength] at hheader
  rw [← hrest, List.drop_left' hlength] at hleft
  have hwhole : payload.length ≤ (delivered unread).length := by
    rw [hleft, List.length_append]
    omega
  obtain ⟨after, hbody, -⟩ := exists_fill_of_le hwhole
  rw [hleft, List.take_left] at hbody
  exact ⟨_, unread, after, hheader, decodeFrameLen_toBeBytes hbound, hbody⟩

/-- A frame is no proper first part of another one, since it says its own
length. -/
theorem eq_of_encodeFrame_of_isPrefix {first second : List UInt8}
    {firstFrame secondFrame : List UInt8}
    (hfirst : encodeFrame first = .ok firstFrame)
    (hsecond : encodeFrame second = .ok secondFrame)
    (hpart : firstFrame <+: secondFrame) : firstFrame = secondFrame := by
  obtain ⟨hbound, hframe⟩ := encodeFrame_eq_ok_iff.mp hfirst
  obtain ⟨hbound', hframe'⟩ := encodeFrame_eq_ok_iff.mp hsecond
  have hheader : u32ToBeBytes first.length = u32ToBeBytes second.length := by
    rw [hframe, hframe'] at hpart
    have hheaders : u32ToBeBytes first.length <+: u32ToBeBytes second.length :=
      List.prefix_of_prefix_length_le
        ((List.prefix_append _ first).trans hpart)
        (List.prefix_append _ second) (le_of_eq rfl)
    exact hheaders.eq_of_length rfl
  have hlength : first.length = second.length := by
    have hdecode := decodeFrameLen_toBeBytes hbound
    rw [hheader, decodeFrameLen_toBeBytes hbound'] at hdecode
    exact (Except.ok.inj hdecode).symm
  apply hpart.eq_of_length
  rw [hframe, hframe', List.length_append, List.length_append, hheader,
    hlength]

theorem decodeBody_eq_ok {α : Type} {parse : List UInt8 → Option α}
    {body : List UInt8} {message : α} (hlen : body.length ≤ maxFrameBytes)
    (hversion : codec.parseVersion body = some domainSchemaVersion)
    (hparse : parse body = some message) :
    decodeBody codec parse body = .ok message := by
  simp [decodeBody, Nat.not_lt.mpr hlen, peekVersion, hversion, hparse]

end Eltanin.Protocol
