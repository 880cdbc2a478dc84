import Eltanin.ConnectionModel
import Eltanin.WireSchema

/-!
# The contract of a connection

A connection is served at most once and answered at most once, whatever the
stream brings.  The reader takes no byte behind the announced body, the
handler sees only what was decoded, and every answer carries the id of the
request or one which was found in its body.  Only one kind of body gives an id
which does not stand where a request has its id: an array in place of the
envelope or of the payload.
-/

namespace Eltanin.Agent

open Json Eltanin.Core Protocol ByteStream TextLines

/-- The id stands in the body under the payload and its request id. -/
def StandsIn (value : JsonValue) (requestId : RequestId) : Prop :=
  ∃ members payload, value = .object members ∧
    ("payload", .object payload) ∈ members ∧
    ("request_id", u64Json requestId.id) ∈ payload

/-- An array in place of the envelope, or in place of the payload, from which
an id is nevertheless recovered. -/
inductive StrayId : JsonValue → Prop where
  | envelope {payload : JsonValue} {id : UInt64}
      (hpayload : Carries false [("request_id", u64Json id)] payload) :
      StrayId (.array [payload])
  | payload {members : Members} {id : UInt64}
      (hsingle : members.filter (fun member => member.1 = "payload") =
        [("payload", .array [u64Json id])]) :
      StrayId (.object members)

/-- The stream brings a whole frame of this body. -/
def BringsBody (stream : List Delivery) (body : List UInt8) : Prop :=
  body.length ≤ maxFrameBytes ∧
    u32ToBeBytes body.length ++ body <+: delivered stream

/-- What a connection is promised to come to, when just the bytes of `taken`
were taken from its stream. -/
structure ServedOnce (text : JsonText) (timeoutsSet : Bool)
    (peer : Option PeerContext) (stream : List Delivery)
    (handler : ClientRequest → PeerContext → Completion AgentResponse)
    (served : Served) (taken : List UInt8) : Prop where
  consumed : bytesOf stream = taken ++ bytesOf served.unread
  bounded : taken.length ≤ 4 + u32FromBeBytes (taken.take 4)
  oversized : maxFrameBytes < u32FromBeBytes (taken.take 4) →
    taken.length ≤ 4
  /-- The handler is called with what was decoded from a whole body, and the
  answer carries the id of the request. -/
  dispatched : ∀ request context,
    served.dispatched = some (request, context) →
      timeoutsSet = true ∧ peer = some context ∧ 4 ≤ taken.length ∧
        u32FromBeBytes (taken.take 4) = (taken.drop 4).length ∧
        (taken.drop 4).length ≤ maxFrameBytes ∧
        ∃ message answer frame,
          decodeRequest (.ofJson text) (taken.drop 4) = .ok message ∧
          message.payload.body = request ∧
          served.written = .returned (some
            (.current ⟨some message.payload.requestId, answer⟩, frame)) ∧
          (answer = caught (handler request context) ∨
            answer = .error .internal ∧
              ∃ error, encodeResponse (.ofJson text) (.current
                ⟨some message.payload.requestId,
                  caught (handler request context)⟩) = .error error)
  /-- What is written is one frame. -/
  framed : ∀ response frame,
    served.written = .returned (some (response, frame)) →
      encodeResponse (.ofJson text) response = .ok frame
  /-- Without a call the answer is an error, under an id of the body only. -/
  refused : ∀ response frame, served.dispatched = none →
    served.written = .returned (some (response, frame)) →
      (∃ code, response.payload.body = .error code) ∧
        ∀ requestId, response.payload.requestId = some requestId →
          ∃ value, text.parse (taken.drop 4) = some value ∧
            StandsIn value requestId
  silent : served.written = .returned none →
    timeoutsSet = false ∨ (∃ context, peer = some context) ∧
      EndsAtOnce stream
  settled : served.written ≠ .panicked

/-! ## Reading -/

section Reading

variable {stream unread : List Delivery} {taken body : List UInt8}

/-- What was taken for a frame: a header, and no more than it announces. -/
structure FrameTaken (stream unread : List Delivery) (taken : List UInt8)
    (read : FrameRead) : Prop where
  consumed : bytesOf stream = taken ++ bytesOf unread
  bounded : taken.length ≤ 4 + u32FromBeBytes (taken.take 4)
  oversized : maxFrameBytes < u32FromBeBytes (taken.take 4) →
    taken.length ≤ 4
  whole : ∀ body, read = .ok body →
    4 ≤ taken.length ∧ taken.drop 4 = body ∧
      u32FromBeBytes (taken.take 4) = body.length ∧
      body.length ≤ maxFrameBytes
  silent : read = .eof → EndsAtOnce stream

theorem exists_taken_readFull (len : ℕ) (stream : List Delivery) :
    ∃ taken, bytesOf stream = taken ++ bytesOf (readFull len stream).2 ∧
      taken.length ≤ len ∧
      (∀ bytes, (readFull len stream).1 = .ok (.complete bytes) →
        bytes = taken ∧ taken.length = len) ∧
      ((readFull len stream).1 = .ok .eof → 0 < len →
        EndsAtOnce stream) := by
  rcases @exists_takes len [] stream (Nat.zero_le len) with ⟨taken, htaken⟩
  refine ⟨taken, ?_⟩
  have hbounded := htaken.bounded
  rw [List.length_nil, Nat.zero_add] at hbounded
  have hends := @endsAtOnce_of_fill len stream
  unfold readFull
  rcases hfill : fill len [] stream with ⟨reading, unread⟩
  rw [hfill] at htaken hends
  cases reading with
  | complete bytes =>
      rcases htaken.complete bytes rfl with ⟨rfl, hlength⟩
      refine ⟨htaken.consumed, hbounded, ?_, by simp⟩
      intro bytes heq
      simp only [Except.ok.injEq, ReadOutcome.complete.injEq] at heq
      exact ⟨heq.symm, hlength⟩
  | ended bytes =>
      cases bytes with
      | nil =>
          refine ⟨htaken.consumed, hbounded, by simp, ?_⟩
          intro _ hwanted
          exact hends hwanted rfl
      | cons byte bytes =>
          exact ⟨htaken.consumed, hbounded, by simp, by simp⟩
  | failed reason => exact ⟨htaken.consumed, hbounded, by simp, by simp⟩

theorem decodeFrameLen_cases (header : List UInt8) :
    (decodeFrameLen header =
        .error (.oversized (u32FromBeBytes header) maxFrameBytes) ∧
      maxFrameBytes < u32FromBeBytes header) ∨
    (decodeFrameLen header = .ok (u32FromBeBytes header) ∧
      u32FromBeBytes header ≤ maxFrameBytes) := by
  unfold decodeFrameLen
  by_cases hlong : maxFrameBytes < u32FromBeBytes header
  · exact .inl ⟨if_pos hlong, hlong⟩
  · exact .inr ⟨if_neg hlong, Nat.not_lt.mp hlong⟩

theorem frameTaken_of_header (hconsumed : bytesOf stream =
      taken ++ bytesOf unread) (hlength : taken.length ≤ 4)
    {read : FrameRead} (hread : ∀ body, read ≠ .ok body)
    (hsilent : read = .eof → EndsAtOnce stream) :
    FrameTaken stream unread taken read where
  consumed := hconsumed
  bounded := by omega
  oversized _ := hlength
  whole body heq := (hread body heq).elim
  silent := hsilent

theorem frameTaken_of_body {header : List UInt8} {rest : List Delivery}
    (hheader : bytesOf stream = header ++ bytesOf unread)
    (hfour : header.length = 4)
    (hfits : u32FromBeBytes header ≤ maxFrameBytes)
    (hconsumed : bytesOf unread = taken ++ bytesOf rest)
    (hlength : taken.length ≤ u32FromBeBytes header) {read : FrameRead}
    (hread : ∀ body, read = .ok body →
      body = taken ∧ taken.length = u32FromBeBytes header)
    (hne : read ≠ .eof) :
    FrameTaken stream rest (header ++ taken) read := by
  have htake : (header ++ taken).take 4 = header := List.take_left' hfour
  constructor
  case consumed => rw [hheader, hconsumed, List.append_assoc]
  case bounded =>
    rw [htake, List.length_append]
    omega
  case oversized =>
    intro hlong
    rw [htake] at hlong
    omega
  case whole =>
    intro body heq
    rcases hread body heq with ⟨rfl, hwhole⟩
    rw [htake, List.drop_left' hfour, List.length_append]
    exact ⟨by omega, rfl, hwhole.symm, by omega⟩
  case silent =>
    intro heq
    exact (hne heq).elim

theorem exists_frameTaken (stream : List Delivery) :
    ∃ taken, FrameTaken stream (readFrame stream).2 taken
      (readFrame stream).1 := by
  rcases exists_taken_readFull 4 stream with
    ⟨header, hheader, hfour, hcomplete, hsilent⟩
  unfold readFrame
  rcases hfull : readFull 4 stream with ⟨outcome, unread⟩
  rw [hfull] at hheader hcomplete hsilent
  cases outcome with
  | error reason =>
      exact ⟨header, frameTaken_of_header hheader hfour (by simp) (by simp)⟩
  | ok outcome =>
      cases outcome with
      | eof =>
          exact ⟨header, frameTaken_of_header hheader hfour (by simp)
            fun _ => hsilent rfl (by decide)⟩
      | short =>
          exact ⟨header,
            frameTaken_of_header hheader hfour (by simp) (by simp)⟩
      | complete bytes =>
          rcases hcomplete bytes rfl with ⟨rfl, hlength⟩
          rcases decodeFrameLen_cases bytes with
            ⟨hdecode, hlong⟩ | ⟨hdecode, hfits⟩
          · simp only [hdecode]
            exact ⟨bytes,
              frameTaken_of_header hheader hfour (by simp) (by simp)⟩
          · simp only [hdecode]
            rcases exists_taken_readFull (u32FromBeBytes bytes) unread with
              ⟨rest, hrest, hle, hwhole, -⟩
            rcases hbody : readFull (u32FromBeBytes bytes) unread with
              ⟨outcome, left⟩
            rw [hbody] at hrest hwhole
            refine ⟨bytes ++ rest, ?_⟩
            have htaken := @frameTaken_of_body stream unread rest bytes left
              hheader hlength hfits hrest hle
            rcases outcome with reason | outcome
            · exact htaken (by simp) (by simp)
            cases outcome with
            | complete body =>
                apply htaken _ (by simp)
                intro found heq
                rw [← FrameRead.ok.inj heq]
                exact hwhole body rfl
            | eof => exact htaken (by simp) (by simp)
            | short => exact htaken (by simp) (by simp)

theorem u32ToBeBytes_fromBeBytes {header : List UInt8}
    (hlength : header.length = 4) :
    u32ToBeBytes (u32FromBeBytes header) = header := by
  rcases header with _ | ⟨a, _ | ⟨b, _ | ⟨c, _ | ⟨d, _ | ⟨e, rest⟩⟩⟩⟩⟩ <;>
    simp only [List.length_cons, List.length_nil] at hlength
  all_goals try omega
  have ha := a.toNat_lt
  have hb := b.toNat_lt
  have hc := c.toNat_lt
  have hd := d.toNat_lt
  simp only [u32ToBeBytes, u32FromBeBytes, List.foldl_cons, List.foldl_nil,
    List.cons.injEq, ← UInt8.toNat_inj, UInt8.toNat_ofNat', and_true]
  omega

theorem readFull_eq_complete {len : ℕ} {bytes : List UInt8}
    (hread : readFull len stream = (.ok (.complete bytes), unread)) :
    len ≤ (delivered stream).length ∧ bytes = (delivered stream).take len ∧
      delivered unread = (delivered stream).drop len := by
  by_cases hlong : len ≤ (delivered stream).length
  · rcases readFull_of_le hlong with ⟨left, hfull, hleft⟩
    rw [hread, Prod.mk.injEq, Except.ok.injEq,
      ReadOutcome.complete.injEq] at hfull
    rw [hfull.2]
    exact ⟨hlong, hfull.1, hleft⟩
  · have hnot := readFull_of_lt (Nat.not_le.mp hlong) bytes
    rw [hread] at hnot
    exact (hnot rfl).elim

theorem readFrame_eq_ok_iff :
    (readFrame stream).1 = .ok body ↔ BringsBody stream body := by
  constructor
  · intro hread
    unfold readFrame at hread
    rcases hheader : readFull 4 stream with ⟨outcome, unread⟩
    rw [hheader] at hread
    rcases outcome with reason | outcome
    · contradiction
    cases outcome with
    | eof => contradiction
    | short => contradiction
    | complete header =>
        rcases readFull_eq_complete hheader with ⟨hfour, htake, hleft⟩
        have hlength : header.length = 4 := by
          rw [htake, List.length_take, Nat.min_eq_left hfour]
        rcases decodeFrameLen_cases header with
          ⟨hdecode, -⟩ | ⟨hdecode, hfits⟩
        · simp [hdecode] at hread
        simp only [hdecode] at hread
        rcases hbody : readFull (u32FromBeBytes header) unread with
          ⟨outcome, rest⟩
        rw [hbody] at hread
        rcases outcome with reason | outcome
        · contradiction
        cases outcome with
        | eof => contradiction
        | short => contradiction
        | complete found =>
            rcases readFull_eq_complete hbody with ⟨hlong, hfound, hrest⟩
            have hsize : found.length = u32FromBeBytes header := by
              rw [hfound, List.length_take, Nat.min_eq_left hlong]
            rw [← FrameRead.ok.inj hread]
            refine ⟨by omega, delivered rest, ?_⟩
            rw [hsize, u32ToBeBytes_fromBeBytes hlength, hrest, hfound,
              List.append_assoc, List.take_append_drop, hleft, htake,
              List.take_append_drop]
  · intro hbrings
    rcases hbrings with ⟨hfits, hbegins⟩
    exact readFrame_of_prefix (encodeFrame_eq_ok_iff.mpr ⟨hfits, rfl⟩) hbegins

end Reading

/-! ## Ids -/

section Ids

variable {value : JsonValue} {requestId : RequestId}

theorem readHeaderPayloadPeek_eq_some_iff :
    readHeaderPayloadPeek value = some requestId ↔
      Carries false [("request_id", u64Json requestId.id)] value := by
  constructor
  · intro hpeek
    rcases bind_required_eq_some_iff.mp hpeek with ⟨document, hshape, hread⟩
    rcases Option.map_eq_some_iff.mp hread with ⟨id, hid, rfl⟩
    rw [readU64_eq_some_iff.mp hid] at hshape
    exact hshape
  · intro hshape
    exact bind_required_eq_some_iff.mpr ⟨_, hshape, rfl⟩

theorem readHeaderPeek_eq_some_iff :
    readHeaderPeek value = some requestId ↔
      ∃ payload, Carries false [("payload", payload)] value ∧
        Carries false [("request_id", u64Json requestId.id)] payload := by
  rw [readHeaderPeek]
  simp only [← readHeaderPayloadPeek_eq_some_iff]
  exact bind_required_eq_some_iff

/-- A recovered id stands in the body, or is stray. -/
theorem standsIn_of_peek (hpeek : readHeaderPeek value = some requestId) :
    StandsIn value requestId ∨ StrayId value := by
  rcases readHeaderPeek_eq_some_iff.mp hpeek with ⟨payload, hshape, hpayload⟩
  cases hshape with
  | array => exact .inr (.envelope hpayload)
  | object hperm hothers hdeny =>
      rename_i members others
      have hsingle := single_of_carries (by simp)
        (.object hperm hothers hdeny)
      cases hpayload with
      | array => exact .inr (.payload hsingle)
      | object hperm' hothers' hdeny' =>
          left
          refine ⟨members, _, rfl, ?_, hperm'.mem_iff.mpr (by simp)⟩
          exact hperm.mem_iff.mpr (by simp)

/-- From a stray id an id is recovered, which does not stand in the body. -/
theorem StrayId.peek (hstray : StrayId value) :
    ∃ requestId, readHeaderPeek value = some requestId ∧
      ¬StandsIn value requestId := by
  cases hstray with
  | @envelope payload id hpayload =>
      refine ⟨⟨id⟩, readHeaderPeek_eq_some_iff.mpr
        ⟨payload, .array, hpayload⟩, ?_⟩
      intro hstands
      rcases hstands with ⟨members, payload, heq, -, -⟩
      contradiction
  | @payload members id hsingle =>
      have hshape : Carries false [("payload", .array [u64Json id])]
          (.object members) :=
        (carries_iff (by simp)).mpr ⟨members, fieldsOf_single hsingle,
          by simp [lookup_of_single hsingle]⟩
      refine ⟨⟨id⟩, readHeaderPeek_eq_some_iff.mpr
        ⟨.array [u64Json id], hshape, .array⟩, ?_⟩
      intro hstands
      rcases hstands with ⟨found, payload, heq, hmem, -⟩
      have hfiltered : ("payload", JsonValue.object payload) ∈
          members.filter fun member => member.1 = "payload" := by
        rw [JsonValue.object.inj heq]
        exact List.mem_filter.mpr ⟨hmem, by simp⟩
      rw [hsingle] at hfiltered
      simp at hfiltered

/-- A body with a stray id is no request. -/
theorem StrayId.not_takenForRequest (hstray : StrayId value) :
    ¬TakenForRequest value := by
  intro htaken
  rcases htaken with
    ⟨⟨members, rfl⟩, payload, henvelope, requestId, body, hpayload, -⟩
  cases hstray with
  | @payload members id hsingle =>
      have hmem : ("payload", payload) ∈ members := by
        cases henvelope with
        | object hperm => exact hperm.mem_iff.mpr (by simp)
      have hfiltered : ("payload", payload) ∈
          members.filter fun member => member.1 = "payload" :=
        List.mem_filter.mpr ⟨hmem, by simp⟩
      rw [hsingle, List.mem_singleton, Prod.mk.injEq] at hfiltered
      rw [hfiltered.2, carries_array_iff] at hpayload
      simp at hpayload

end Ids

/-! ## Answers -/

section Answers

variable {text : JsonText}

theorem length_print_internal_le (requestId : Option RequestId) :
    (text.print (responseJson
      (.current ⟨requestId, .error .internal⟩))).length ≤ 200 := by
  have hnames : ∀ name ∈ ["version", "payload", "request_id", "body",
      "result", "error", "code", "internal"],
      (printString name).length ≤ 12 := by decide
  have hversion := length_toDigits_le domainSchemaVersion.toUInt64
  have hid : (compact text.float (optionJson (fun requestId : RequestId =>
      u64Json requestId.id) requestId)).length ≤ 20 := by
    cases requestId with
    | none => simp [optionJson, compact]
    | some requestId =>
        simp only [optionJson, u64Json, compact, printNumber]
        exact length_toDigits_le requestId.id
  simp only [JsonText.print, responseJson, versionedJson, responseBodyJson,
    agentResponseJson, errorCodeJson, taggedJson, Versioned.current, compact,
    compactMembers, u16Json, printNumber, List.length_append,
    List.length_cons, List.length_nil]
  simp only [List.forall_mem_cons] at hnames
  -- The texts of the names are kept apart from the arithmetic.
  generalize printString "version" = version at *
  generalize printString "payload" = payload at *
  generalize printString "request_id" = id at *
  generalize printString "body" = body at *
  generalize printString "result" = result at *
  generalize printString "error" = error at *
  generalize printString "code" = code at *
  generalize printString "internal" = internal at *
  omega

/-- An error without detail fits into a frame under every id. -/
theorem exists_encodeResponse_internal (requestId : Option RequestId) :
    ∃ frame, encodeResponse (.ofJson text)
      (.current ⟨requestId, .error .internal⟩) = .ok frame := by
  have hprint := @length_print_internal_le text requestId
  have hencode := length_encode_le (text.print (responseJson
    (.current ⟨requestId, .error .internal⟩)))
  have hfits : (encode (text.print (responseJson
      (.current ⟨requestId, .error .internal⟩)))).length ≤
        maxFrameBytes := by
    rw [maxFrameBytes]
    omega
  exact ⟨_, encodeFrame_eq_ok_iff.mpr ⟨hfits, rfl⟩⟩

/-- What is sent carries the id, and the body or an internal error in place of
a body which does not fit. -/
theorem exists_sent (requestId : Option RequestId) (body : AgentResponse) :
    ∃ answer frame,
      send (.ofJson text) requestId body =
          .returned (.current ⟨requestId, answer⟩, frame) ∧
        encodeResponse (.ofJson text) (.current ⟨requestId, answer⟩) =
          .ok frame ∧
        (answer = body ∨ answer = .error .internal ∧
          ∃ error, encodeResponse (.ofJson text)
            (.current ⟨requestId, body⟩) = .error error) := by
  unfold send
  cases hencode : encodeResponse (.ofJson text) (.current ⟨requestId, body⟩)
    with
  | ok frame =>
      exact ⟨body, frame, by simp only [hencode], hencode, .inl rfl⟩
  | error error =>
      rcases @exists_encodeResponse_internal text requestId with
        ⟨frame, hframe⟩
      exact ⟨.error .internal, frame, by simp only [hencode, hframe], hframe,
        .inr ⟨rfl, error, rfl⟩⟩

theorem exists_failed (requestId : Option RequestId) (code : ErrorCode) :
    ∃ code' frame,
      fail (.ofJson text) requestId code =
          .returned (.current ⟨requestId, .error code'⟩, frame) ∧
        encodeResponse (.ofJson text) (.current ⟨requestId, .error code'⟩) =
          .ok frame := by
  rcases @exists_sent text requestId (.error code) with
    ⟨answer, frame, hsent, hframe, rfl | ⟨rfl, -⟩⟩
  · exact ⟨code, frame, hsent, hframe⟩
  · exact ⟨.internal, frame, hsent, hframe⟩

end Answers

/-! ## The contract -/

section Contract

variable {text : JsonText} {timeoutsSet : Bool} {peer : Option PeerContext}
  {stream unread : List Delivery} {taken : List UInt8}
  {handler : ClientRequest → PeerContext → Completion AgentResponse}
  {read : FrameRead}

/-- A refusal keeps the contract, if its id stands in the body. -/
theorem servedOnce_of_failed {requestId : Option RequestId}
    {code : ErrorCode} (htaken : FrameTaken stream unread taken read)
    (hid : ∀ id, requestId = some id →
      ∃ value, text.parse (taken.drop 4) = some value ∧ StandsIn value id) :
    ServedOnce text timeoutsSet peer stream handler
      ⟨none, wrote (fail (.ofJson text) requestId code), unread⟩ taken := by
  rcases @exists_failed text requestId code with
    ⟨code', sent, hfail, hframe⟩
  rw [hfail]
  constructor
  case consumed => exact htaken.consumed
  case bounded => exact htaken.bounded
  case oversized => exact htaken.oversized
  case dispatched =>
    intro request context hdispatched
    contradiction
  case framed =>
    intro response frame hwritten
    simp only [wrote, Completion.returned.injEq, Option.some.injEq,
      Prod.mk.injEq] at hwritten
    rw [← hwritten.1, ← hwritten.2]
    exact hframe
  case refused =>
    intro response frame _ hwritten
    simp only [wrote, Completion.returned.injEq, Option.some.injEq,
      Prod.mk.injEq] at hwritten
    rw [← hwritten.1]
    exact ⟨⟨code', rfl⟩, hid⟩
  case silent =>
    intro hwritten
    simp [wrote] at hwritten
  case settled => simp [wrote]

theorem servedOnce_of_silent (htaken : FrameTaken stream unread taken read)
    (hsilent : timeoutsSet = false ∨ (∃ context, peer = some context) ∧
      EndsAtOnce stream) :
    ServedOnce text timeoutsSet peer stream handler
      ⟨none, .returned none, unread⟩ taken := by
  constructor
  case consumed => exact htaken.consumed
  case bounded => exact htaken.bounded
  case oversized => exact htaken.oversized
  case dispatched =>
    intro request context hdispatched
    contradiction
  case framed => simp
  case refused => simp
  case silent =>
    intro _
    exact hsilent
  case settled => simp

theorem frameTaken_nothing (stream : List Delivery) :
    FrameTaken stream stream [] .failed :=
  frameTaken_of_header (by simp) (by simp) (by simp) (by simp)

theorem servedOnce_of_dispatched {context : PeerContext}
    {body : List UInt8} {message : Request}
    (htaken : FrameTaken stream unread taken (.ok body))
    (hdecode : decodeRequest (.ofJson text) body = .ok message) :
    ServedOnce text true (some context) stream handler
      ⟨some (message.payload.body, context),
        wrote (send (.ofJson text) (some message.payload.requestId)
          (caught (handler message.payload.body context))), unread⟩
      taken := by
  rcases htaken.whole body rfl with ⟨hfour, rfl, hlength, hfits⟩
  rcases @exists_sent text (some message.payload.requestId)
    (caught (handler message.payload.body context)) with
    ⟨answer, sent, hsent, hframe, hanswer⟩
  rw [hsent]
  constructor
  case consumed => exact htaken.consumed
  case bounded => exact htaken.bounded
  case oversized => exact htaken.oversized
  case dispatched =>
    intro request context' hdispatched
    simp only [Option.some.injEq, Prod.mk.injEq] at hdispatched
    rw [← hdispatched.1, ← hdispatched.2]
    exact ⟨rfl, rfl, hfour, hlength, hfits, message, answer, sent, hdecode,
      rfl, rfl, hanswer⟩
  case framed =>
    intro response frame hwritten
    simp only [wrote, Completion.returned.injEq, Option.some.injEq,
      Prod.mk.injEq] at hwritten
    rw [← hwritten.1, ← hwritten.2]
    exact hframe
  case refused => simp
  case silent =>
    intro hwritten
    simp [wrote] at hwritten
  case settled => simp [wrote]

theorem exists_refused {body : List UInt8} (error : ProtocolError) :
    ∃ code, refuse (.ofJson text) body error =
      fail (.ofJson text) (peekRequestId (.ofJson text) body) code := by
  rcases error with ⟨len, max⟩ | _ | unsupported
  · exact ⟨_, rfl⟩
  · exact ⟨_, rfl⟩
  · exact ⟨_, rfl⟩

theorem peekRequestId_eq_some_iff {body : List UInt8}
    {requestId : RequestId} :
    peekRequestId (.ofJson text) body = some requestId ↔
      ∃ value, text.parse body = some value ∧
        readHeaderPeek value = some requestId :=
  Option.bind_eq_some_iff

theorem frameTaken_unique {other : List UInt8}
    (htaken : FrameTaken stream unread taken read)
    (hother : bytesOf stream = other ++ bytesOf unread) : other = taken := by
  have hconsumed := htaken.consumed
  rw [hother] at hconsumed
  exact List.append_cancel_right hconsumed

theorem exists_servedOnce {context : PeerContext}
    (hclean : ∀ body value, (readFrame stream).1 = .ok body →
      text.parse body = some value → ¬StrayId value) :
    ∃ taken, ServedOnce text true (some context) stream handler
      (serveConnection (.ofJson text) true (some context) stream handler)
      taken := by
  rcases exists_frameTaken stream with ⟨taken, htaken⟩
  refine ⟨taken, ?_⟩
  unfold serveConnection
  rcases hframe : readFrame stream with ⟨read, unread⟩
  rw [hframe] at htaken hclean
  cases read with
  | eof =>
      exact servedOnce_of_silent htaken
        (.inr ⟨⟨context, rfl⟩, htaken.silent rfl⟩)
  | failed => exact servedOnce_of_failed htaken (by simp)
  | oversized => exact servedOnce_of_failed htaken (by simp)
  | ok body =>
      cases hdecode : decodeRequest (.ofJson text) body with
      | ok message =>
          simp only [Bool.true_eq_false, if_false, hdecode]
          exact servedOnce_of_dispatched htaken hdecode
      | error error =>
          rcases @exists_refused text body error with ⟨code, hrefuse⟩
          simp only [Bool.true_eq_false, if_false, hdecode, hrefuse]
          apply servedOnce_of_failed htaken
          intro id hid
          rcases peekRequestId_eq_some_iff.mp hid with ⟨value, hparse, hpeek⟩
          have hbody := (htaken.whole body rfl).2.1
          rw [hbody]
          rcases standsIn_of_peek hpeek with hstands | hstray
          · exact ⟨value, hparse, hstands⟩
          · exact (hclean body value rfl hparse hstray).elim

/-- A stray id is answered under, although it does not stand in the body. -/
theorem serveConnection_of_stray {context : PeerContext}
    {body : List UInt8} {value : JsonValue}
    (hread : (readFrame stream).1 = .ok body)
    (hfits : body.length ≤ maxFrameBytes)
    (hparse : text.parse body = some value) (hstray : StrayId value) :
    ∃ id code sent, ¬StandsIn value id ∧
      readHeaderPeek value = some id ∧
      serveConnection (.ofJson text) true (some context) stream handler =
        ⟨none, .returned (some (.current ⟨some id, .error code⟩, sent)),
          (readFrame stream).2⟩ := by
  rcases hframe : readFrame stream with ⟨read, unread⟩
  rw [hframe] at hread
  have hread : read = .ok body := hread
  have hrejected : ∃ error,
      decodeRequest (.ofJson text) body = .error error := by
    cases hdecode : decodeRequest (.ofJson text) body with
    | error error => exact ⟨error, rfl⟩
    | ok message =>
        have htaken := (decodeRequest_eq_ok_iff hfits hparse).mp ⟨_, hdecode⟩
        exact (hstray.not_takenForRequest htaken).elim
  rcases hrejected with ⟨error, hdecode⟩
  rcases hstray.peek with ⟨id, hpeek, hnot⟩
  have hid : peekRequestId (.ofJson text) body = some id :=
    peekRequestId_eq_some_iff.mpr ⟨value, hparse, hpeek⟩
  rcases @exists_refused text body error with ⟨code, hrefuse⟩
  rcases @exists_failed text (some id) code with ⟨code', sent, hfail, -⟩
  refine ⟨id, code', sent, hnot, hpeek, ?_⟩
  unfold serveConnection
  simp only [Bool.true_eq_false, if_false, hframe, hread, hdecode, hrefuse,
    hid, hfail, wrote]

theorem not_servedOnce_of_stray {context : PeerContext} {body : List UInt8}
    {value : JsonValue} (hread : (readFrame stream).1 = .ok body)
    (hparse : text.parse body = some value) (hstray : StrayId value) :
    ¬∃ taken, ServedOnce text true (some context) stream handler
      (serveConnection (.ofJson text) true (some context) stream handler)
      taken := by
  intro hserved
  rcases hserved with ⟨other, hserved⟩
  rcases exists_frameTaken stream with ⟨taken, htaken⟩
  rcases htaken.whole body hread with ⟨-, hbody, -, hfits⟩
  rcases @serveConnection_of_stray text stream handler context body value
    hread hfits hparse hstray with ⟨id, code, sent, hnot, -, hserve⟩
  rw [hserve] at hserved
  have hsame := frameTaken_unique htaken hserved.consumed
  rcases (hserved.refused _ _ rfl rfl).2 id rfl with
    ⟨found, hfound, hstands⟩
  rw [hsame, hbody, hparse] at hfound
  exact hnot (Option.some.inj hfound ▸ hstands)

/-- The contract is kept, unless the stream brings a body with a stray id. -/
theorem served_once_iff (text : JsonText) (timeoutsSet : Bool)
    (peer : Option PeerContext) (stream : List Delivery)
    (handler : ClientRequest → PeerContext → Completion AgentResponse) :
    (∃ taken, ServedOnce text timeoutsSet peer stream handler
      (serveConnection (.ofJson text) timeoutsSet peer stream handler)
      taken) ↔
    ¬(timeoutsSet = true ∧ (∃ context, peer = some context) ∧
      ∃ body value, BringsBody stream body ∧
        text.parse body = some value ∧ StrayId value) := by
  constructor
  · intro hserved hstray
    rcases hstray with
      ⟨rfl, ⟨context, rfl⟩, body, value, hbrings, hparse, hstray⟩
    exact not_servedOnce_of_stray (readFrame_eq_ok_iff.mpr hbrings) hparse
      hstray hserved
  · intro hclean
    cases timeoutsSet with
    | false =>
        exact ⟨[], servedOnce_of_silent (frameTaken_nothing stream)
          (.inl rfl)⟩
    | true =>
        cases peer with
        | none =>
            exact ⟨[], servedOnce_of_failed (frameTaken_nothing stream)
              (by simp)⟩
        | some context =>
            apply exists_servedOnce
            intro body value hread hparse hstray
            exact hclean ⟨rfl, ⟨context, rfl⟩, body, value,
              readFrame_eq_ok_iff.mp hread, hparse, hstray⟩

end Contract

/-- A body whose payload is no object. -/
def strayBody : JsonValue :=
  .object [("version", u16Json 1), ("payload", .array [u64Json 5])]

def strayBytes : List UInt8 :=
  encode ((JsonText.knowing strayBody).print strayBody)

def callingPeer : PeerContext where
  credential := ⟨4242, 1000, 1000⟩
  consistency := .peerUnmapped
  observed :=
    { workload := ⟨4242, .unsupported, .unsupported, .unsupported,
        .unsupported, .unsupported, []⟩
      cgroupPath := .unsupported
      namespaceHint := .unsupported
      containerHint := .unsupported
      sessionOrigin := .unsupported }

def strayStream : List Delivery :=
  [.chunk (u32ToBeBytes strayBytes.length ++ strayBytes)]

/-- An id is made up for a request which has none. -/
theorem payload_array_gives_an_id :
    (∃ code frame, (serveConnection (.ofJson (.knowing strayBody)) true
        (some callingPeer) strayStream fun _ _ => .panicked).written =
          .returned (some (.current ⟨some ⟨5⟩, .error code⟩, frame))) ∧
      ¬∃ taken, ServedOnce (.knowing strayBody) true (some callingPeer)
        strayStream (fun _ _ => .panicked)
        (serveConnection (.ofJson (.knowing strayBody)) true
          (some callingPeer) strayStream fun _ _ => .panicked) taken := by
  have hfits : strayBytes.length ≤ maxFrameBytes := by decide +kernel
  have hparse : (JsonText.knowing strayBody).parse strayBytes =
      some strayBody := JsonText.reads_knowing strayBody
  have hstray : StrayId strayBody := .payload rfl
  have hread : (readFrame strayStream).1 = .ok strayBytes := by
    apply readFrame_eq_ok_iff.mpr
    refine ⟨hfits, [], ?_⟩
    simp [strayStream, delivered, u32ToBeBytes]
  constructor
  · rcases @serveConnection_of_stray _ _ (fun _ _ => .panicked) callingPeer _
      _ hread hfits hparse hstray with ⟨id, code, sent, -, hpeek, hserve⟩
    have hid : id = ⟨5⟩ := by
      have hfive : readHeaderPeek strayBody = some ⟨5⟩ := rfl
      rw [hfive] at hpeek
      exact (Option.some.inj hpeek).symm
    rw [hserve, hid]
    exact ⟨code, sent, rfl⟩
  · exact not_servedOnce_of_stray hread hparse hstray

end Eltanin.Agent
