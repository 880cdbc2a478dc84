import Eltanin.ConnectionModel

/-!
# Framing is exact under any chunking

However the bytes of a frame are cut into reads, and however often a read is
interrupted, the reader takes the frame and nothing after it.  A stream which
ends inside a frame is not a frame, an empty one is the end, and a header which
names too much is all that is read.
-/

namespace Eltanin.Agent

open Eltanin.Core Protocol ByteStream

variable {stream : List Delivery} {bytes payload frame : List UInt8}

/-! ## One buffer -/

theorem readFull_of_brings {len : ℕ} (hbrings : Brings bytes stream)
    (hle : len ≤ bytes.length) :
    ∃ unread, readFull len stream =
        (.ok (.complete (bytes.take len)), unread) ∧
      Brings (bytes.drop len) unread := by
  rcases hbrings.fill_of_le hle with ⟨unread, hfill, hleft⟩
  exact ⟨unread, by rw [readFull, hfill], hleft⟩

theorem readFull_of_brings_short {len : ℕ} (hbrings : Brings bytes stream)
    (hlt : bytes.length < len) :
    (readFull len stream).1 =
      .ok (if bytes = [] then .eof else .short) := by
  have hended := hbrings.fill_of_lt hlt
  rcases hfill : fill len [] stream with ⟨reading, unread⟩
  rw [hfill] at hended
  simp only at hended
  rw [readFull, hfill, hended]
  cases bytes <;> simp

/-! ## One frame -/

theorem readFull_of_brings_header {header rest : List UInt8}
    (hlength : header.length = 4) (hbrings : Brings (header ++ rest) stream) :
    ∃ unread, readFull 4 stream = (.ok (.complete header), unread) ∧
      Brings rest unread := by
  have hle : 4 ≤ (header ++ rest).length := by
    rw [List.length_append]
    omega
  rcases readFull_of_brings hbrings hle with ⟨unread, hread, hleft⟩
  rw [List.take_left' hlength] at hread
  rw [List.drop_left' hlength] at hleft
  exact ⟨unread, hread, hleft⟩

theorem readFrame_of_brings {rest : List UInt8}
    (hencode : encodeFrame payload = .ok frame)
    (hbrings : Brings (frame ++ rest) stream) :
    ∃ unread, readFrame stream = (.ok payload, unread) ∧
      Brings rest unread := by
  obtain ⟨hbound, hframe⟩ := encodeFrame_eq_ok_iff.mp hencode
  rw [hframe, List.append_assoc] at hbrings
  rcases readFull_of_brings_header (length_u32ToBeBytes _) hbrings with
    ⟨afterHeader, hheader, hbody⟩
  have hle : payload.length ≤ (payload ++ rest).length := by
    rw [List.length_append]
    omega
  rcases readFull_of_brings hbody hle with ⟨unread, hread, hleft⟩
  rw [List.take_left] at hread
  rw [List.drop_left] at hleft
  refine ⟨unread, ?_, hleft⟩
  rw [readFrame, hheader]
  simp only [decodeFrameLen_toBeBytes hbound, hread]

theorem readFrame_of_brings_nil (hbrings : Brings [] stream) :
    (readFrame stream).1 = .eof := by
  have hread := readFull_of_brings_short hbrings
    (show ([] : List UInt8).length < 4 by simp)
  rcases hfull : readFull 4 stream with ⟨outcome, unread⟩
  rw [hfull] at hread
  simp only [if_true] at hread
  rw [readFrame, hfull, hread]

/-- The header may be cut, or the body, or the stream may end just between
them. -/
theorem readFrame_of_brings_prefix {part : List UInt8}
    (hencode : encodeFrame payload = .ok frame) (hpart : part <+: frame)
    (hproper : part ≠ frame) (hnonempty : part ≠ [])
    (hbrings : Brings part stream) :
    (readFrame stream).1 = .failed := by
  have hwhole := hbrings.delivered_eq
  rcases readFrame_of_short hencode (hwhole ▸ hpart) (hwhole ▸ hproper) with
    heof | hfailed
  · by_cases hheader : 4 ≤ part.length
    · rcases readFull_of_brings hbrings hheader with ⟨unread, hread, -⟩
      rw [readFrame, hread] at heof
      simp only at heof
      split at heof
      · contradiction
      · split at heof <;> contradiction
    · have hread := readFull_of_brings_short hbrings (not_le.mp hheader)
      rw [if_neg hnonempty] at hread
      rcases hfull : readFull 4 stream with ⟨outcome, unread⟩
      rw [hfull] at hread
      simp only at hread
      rw [readFrame, hfull, hread]
  · exact hfailed

theorem readFrame_of_brings_oversized {header rest : List UInt8}
    (hlength : header.length = 4)
    (hover : maxFrameBytes < u32FromBeBytes header)
    (hbrings : Brings (header ++ rest) stream) :
    ∃ unread, readFrame stream = (.oversized, unread) ∧
      Brings rest unread := by
  rcases readFull_of_brings_header hlength hbrings with
    ⟨unread, hread, hleft⟩
  refine ⟨unread, ?_, hleft⟩
  rw [readFrame, hread]
  simp [decodeFrameLen, hover]

theorem encodeFrame_eq_error_iff :
    (∃ error, encodeFrame payload = .error error) ↔
      maxFrameBytes < payload.length := by
  unfold encodeFrame
  by_cases hlong : maxFrameBytes < payload.length
  · simp [hlong]
  · simp [hlong]

/-- A frame is read back exactly, with everything behind it left in the
stream; a proper part of a frame fails, nothing is the end, and an oversized
header is refused without what it announces. -/
theorem framing_exact :
    (∀ payload, payload.length ≤ maxFrameBytes →
      ∃ frame, encodeFrame payload = .ok frame ∧
        frame.length = 4 + payload.length ∧
        decodeFrameLen (frame.take 4) = .ok payload.length ∧
        (∀ rest stream, Brings (frame ++ rest) stream →
          ∃ unread, readFrame stream = (.ok payload, unread) ∧
            Brings rest unread) ∧
        ∀ part stream, part <+: frame → part ≠ frame → part ≠ [] →
          Brings part stream → (readFrame stream).1 = .failed) ∧
    (∀ stream, Brings [] stream → (readFrame stream).1 = .eof) ∧
    (∀ header rest stream, header.length = 4 →
      maxFrameBytes < u32FromBeBytes header →
      Brings (header ++ rest) stream →
      ∃ unread, readFrame stream = (.oversized, unread) ∧
        Brings rest unread) ∧
    ∀ payload, (∃ error, encodeFrame payload = .error error) ↔
      maxFrameBytes < payload.length := by
  refine ⟨?_, fun _ => readFrame_of_brings_nil,
    fun _ _ _ => readFrame_of_brings_oversized,
    fun _ => encodeFrame_eq_error_iff⟩
  intro payload hbound
  have hencode : encodeFrame payload =
      .ok (u32ToBeBytes payload.length ++ payload) :=
    encodeFrame_eq_ok_iff.mpr ⟨hbound, rfl⟩
  refine ⟨_, hencode, ?_, ?_, ?_, ?_⟩
  · rw [List.length_append, length_u32ToBeBytes]
  · rw [List.take_left' (length_u32ToBeBytes _)]
    exact decodeFrameLen_toBeBytes hbound
  · intro rest stream hbrings
    exact readFrame_of_brings hencode hbrings
  · intro part stream hpart hproper hnonempty hbrings
    exact readFrame_of_brings_prefix hencode hpart hproper hnonempty hbrings

end Eltanin.Agent
