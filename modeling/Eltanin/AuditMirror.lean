import Eltanin.AuditEventModel
import Eltanin.AuditRecordJson
import Eltanin.AuditScan

/-!
# The audit mirror loses nothing

Two different events never have the same entry, since each conversion into a
mirror type is injective.  And a record is read back from its line: every
derived reader inverts its writer, a printed document has no newline, and the
log reader takes the line for exactly the record it was written for.
-/

namespace Eltanin.Audit

open Json Eltanin.Core Backend Protocol TextLines

/-! ## Reading back -/

@[simp] theorem readEventId_eventIdJson (eventId : AuditEventId) :
    readEventId (eventIdJson eventId) = some eventId := by
  simp [readEventId, eventIdJson]

@[simp] theorem readWallClockTime_wallClockTimeJson (time : WallClockTime) :
    readWallClockTime (wallClockTimeJson time) = some time := by
  simp [readWallClockTime, wallClockTimeJson]

@[simp] theorem readRecordedOperation_name (operation : RecordedOperation) :
    readRecordedOperation (.string operation.name) = some operation := by
  cases operation <;> rfl

@[simp] theorem readRecordedRequest_recordedRequestJson
    (request : RecordedRequest) :
    readRecordedRequest (recordedRequestJson request) = some request := by
  unfold readRecordedRequest recordedRequestJson
  cases request <;> simp [readRecordedLeaseRequest, readUnit]

@[simp] theorem readCredential_credentialJson
    (credential : RecordedPeerCredential) :
    readCredential (credentialJson credential) = some credential := by
  simp [readCredential, credentialJson]

@[simp] theorem readConsistency_consistencyJson
    (consistency : RecordedPeerConsistency) :
    readConsistency (consistencyJson consistency) = some consistency := by
  unfold readConsistency consistencyJson
  cases consistency <;> simp [readCredentialDivergence, readUnit]

@[simp] theorem readPeer_peerJson (peer : RecordedPeer) :
    readPeer (peerJson peer) = some peer := by
  simp [readPeer, peerJson]

@[simp] theorem readRuleIds_ruleIdsJson (rules : Finset RuleId) :
    readRuleIds (ruleIdsJson rules) = some rules := by
  have hids : readVector readString (ruleIdsJson rules) =
      some ((rules.image RuleId.id).sort (· ≤ ·)) :=
    readVector_vectorJson fun id _ => readString_string id
  rw [readRuleIds, hids, Option.map_some, Option.some.injEq]
  ext rule
  simp only [List.mem_toFinset, List.mem_map, Finset.mem_sort,
    Finset.mem_image]
  constructor
  · intro hmem
    rcases hmem with ⟨id, ⟨other, hother, rfl⟩, rfl⟩
    exact hother
  · intro hmem
    exact ⟨rule.id, ⟨rule, hmem, rfl⟩, rfl⟩

@[simp] theorem readDecisionReason_decisionReasonJson
    (reason : RecordedDecisionReason) :
    readDecisionReason (decisionReasonJson reason) = some reason := by
  unfold readDecisionReason decisionReasonJson
  cases reason <;> simp [readExplicitDeny, readUnit]

@[simp] theorem readEffect_effectName (effect : Effect) :
    readEffect (.string (effectName effect)) = some effect := by
  cases effect <;> rfl

@[simp] theorem readPolicyProvenance_policyProvenanceJson
    (policy : RecordedPolicyProvenance) :
    readPolicyProvenance (policyProvenanceJson policy) = some policy := by
  simp [readPolicyProvenance, policyProvenanceJson]

@[simp] theorem readPolicyDecision_policyDecisionJson
    (decision : RecordedPolicyDecision) :
    readPolicyDecision (policyDecisionJson decision) = some decision := by
  simp [readPolicyDecision, policyDecisionJson]

@[simp] theorem readLeaseError_leaseErrorJson (error : RecordedLeaseError) :
    readLeaseError (leaseErrorJson error) = some error := by
  unfold readLeaseError leaseErrorJson
  cases error <;> simp [readTtlExceedsMaximum, readUnit]

@[simp] theorem readLeaseValidity_leaseValidityJson
    (validity : RecordedLeaseValidity) :
    readLeaseValidity (leaseValidityJson validity) = some validity := by
  unfold readLeaseValidity leaseValidityJson
  cases validity <;>
    simp [readUnit, readIssuerInstanceId, readMonotonicTime, monotonicTimeJson]

@[simp] theorem readRevocation_revocationName
    (revocation : RevocationOutcome) :
    readRevocation (.string (revocationName revocation)) =
      some revocation := by
  cases revocation <;> rfl

theorem readReleased_object (revocation : RevocationOutcome)
    (backend : Option EnforcementResult) :
    readReleased (.object [
      ("revocation", .string (revocationName revocation)),
      ("backend", optionJson enforcementResultJson backend)]) =
        some (.released revocation backend) := by
  have hnull : ∀ result, enforcementResultJson result ≠ .null := by
    intro result heq
    cases result <;> contradiction
  have hbackend : optional readEnforcementResult
      [("revocation", .string (revocationName revocation)),
        ("backend", optionJson enforcementResultJson backend)] "backend" =
        some backend :=
    optional_optionJson (by simp) readEnforcementResult_enforcementResultJson
      hnull
  simp [readReleased, hbackend]

theorem readOutcome_outcomeJson {outcome : RecordedOutcome}
    (hrange : outcome.InRange) :
    readOutcome (outcomeJson outcome) = some outcome := by
  unfold readOutcome outcomeJson
  cases outcome with
  | capacityExhausted outstanding =>
      have hlt : outstanding < UInt64.size := hrange
      simp [UInt64.toNat_ofNat_of_lt' hlt]
  | released revocation backend => simp [readReleased_object]
  | granted leaseId expiresAt =>
      simp [readGranted, readMonotonicTime, monotonicTimeJson]
  | _ => simp [readUnit]

theorem readRecord_recordJson {record : AuditRecord}
    (hrange : record.outcome.InRange) :
    readRecord (recordJson record) = some record := by
  simp [readRecord, recordJson, readOutcome_outcomeJson hrange]

/-! ## Lines -/

section Line

variable {text : JsonText} {record : AuditRecord}

theorem parseRecord_print (hrange : record.outcome.InRange)
    (hreads : text.Reads (versionedJson recordJson (.current record))) :
    (RecordCodec.ofJson text).parseRecord
        (text.print (versionedJson recordJson (.current record))) =
      .ok (.current record) := by
  have hparse : text.parse (encode (text.print
    (versionedJson recordJson (.current record)))) =
      some (versionedJson recordJson (.current record)) := hreads
  have hread : readVersioned readRecord
      (versionedJson recordJson (.current record)) =
        some (.current record) :=
    readVersioned_versionedJson (readRecord_recordJson hrange)
  simp only [RecordCodec.ofJson, hparse, Option.bind_some, hread]

theorem parseValue_print
    (hreads : text.Reads (versionedJson recordJson (.current record))) :
    (RecordCodec.ofJson text).parseValue
        (text.print (versionedJson recordJson (.current record))) =
      .ok (.current (recordJson record).merged) := by
  have hparse : text.parse (encode (text.print
    (versionedJson recordJson (.current record)))) =
      some (versionedJson recordJson (.current record)) := hreads
  have hread : readVersioned (fun payload => some payload.merged)
      (versionedJson recordJson (.current record)) =
        some (.current (recordJson record).merged) := by
    simp [readVersioned, versionedJson, Versioned.current]
  simp only [RecordCodec.ofJson, hparse, Option.bind_some, hread]

/-- A printed object is no blank line. -/
theorem not_isBlank_print (members : Members) :
    ¬IsBlank (text.print (.object members)) := by
  intro hblank
  simp only [IsBlank, JsonText.print, compact, List.cons_append,
    List.all_cons, Bool.and_eq_true] at hblank
  exact absurd hblank.1 (by decide)

theorem readLine_print_ofJson (hrange : record.outcome.InRange)
    (hreads : text.Reads (versionedJson recordJson (.current record)))
    (lineNumber : ℕ) :
    readLine (.ofJson text) lineNumber
        (text.print (versionedJson recordJson (.current record))) =
      some (.ok record) := by
  have hvisible : ¬IsBlank (text.print
      (versionedJson recordJson (.current record))) := not_isBlank_print _
  rw [readLine, if_neg hvisible, parseValue_print hreads,
    parseRecord_print hrange hreads]
  simp [Versioned.current]

end Line

end Eltanin.Audit

namespace Eltanin.Agent

open Json Eltanin.Core Backend Protocol Audit TextLines

/-! ## Conversions -/

theorem recordedOperation_injective : recordedOperation.Injective := by
  intro first second heq
  cases first <;> cases second <;> first | rfl | contradiction

theorem recordedRequest_injective : recordedRequest.Injective := by
  intro first second heq
  rcases first with ⟨⟨resource, action⟩⟩ | ⟨⟨leaseId⟩⟩ | _ <;>
    rcases second with ⟨⟨resource', action'⟩⟩ | ⟨⟨leaseId'⟩⟩ | _ <;>
    simp_all [recordedRequest]

theorem recordedPeerCredential_injective :
    recordedPeerCredential.Injective := by
  intro first second heq
  cases first
  cases second
  simpa [recordedPeerCredential] using heq

theorem recordedPeerConsistency_injective :
    recordedPeerConsistency.Injective := by
  intro first second heq
  cases first <;> cases second <;> simp_all [recordedPeerConsistency]

theorem recordedPeer_injective : recordedPeer.Injective := by
  intro first second heq
  rcases first with ⟨credential, consistency, observed⟩
  rcases second with ⟨credential', consistency', observed'⟩
  simp only [recordedPeer, RecordedPeer.mk.injEq] at heq
  rw [recordedPeerCredential_injective heq.1,
    recordedPeerConsistency_injective heq.2.1, heq.2.2]

theorem recordedPolicyProvenance_injective :
    recordedPolicyProvenance.Injective := by
  intro first second heq
  cases first
  cases second
  simpa [recordedPolicyProvenance] using heq

theorem recordedDecisionReason_injective :
    recordedDecisionReason.Injective := by
  intro first second heq
  cases first <;> cases second <;> simp_all [recordedDecisionReason]

theorem recordedPolicyDecision_injective :
    recordedPolicyDecision.Injective := by
  intro first second heq
  rcases first with ⟨effect, reason, policy⟩
  rcases second with ⟨effect', reason', policy'⟩
  simp only [recordedPolicyDecision, RecordedPolicyDecision.mk.injEq] at heq
  rw [heq.1, recordedDecisionReason_injective heq.2.1,
    recordedPolicyProvenance_injective heq.2.2]

theorem recordedLeaseError_injective : recordedLeaseError.Injective := by
  intro first second heq
  cases first <;> cases second <;>
    simp_all [recordedLeaseError, recordedPolicyDecision_injective.eq_iff]

theorem recordedLeaseValidity_injective :
    recordedLeaseValidity.Injective := by
  intro first second heq
  cases first <;> cases second <;> simp_all [recordedLeaseValidity]

theorem recordedOutcome_injective : recordedOutcome.Injective := by
  intro first second heq
  cases first <;> cases second <;>
    simp_all [recordedOutcome, recordedPolicyDecision_injective.eq_iff,
      recordedLeaseError_injective.eq_iff,
      recordedLeaseValidity_injective.eq_iff]

theorem entry_injective : AuthorizationEvent.entry.Injective := by
  intro first second heq
  rcases first with ⟨operation, request, peer, outcome, response⟩
  rcases second with ⟨operation', request', peer', outcome', response'⟩
  simp only [AuthorizationEvent.entry, AuditEntry.mk.injEq] at heq
  rw [recordedOperation_injective heq.1, recordedRequest_injective heq.2.1,
    recordedPeer_injective heq.2.2.1, recordedOutcome_injective heq.2.2.2.1,
    heq.2.2.2.2]

/-- The line of a record is cut off only at its end, and is read back as the
record. -/
theorem written_line_read_back {text : JsonText} (hplain : text.Plain)
    {record : AuditRecord} (hrange : record.outcome.InRange)
    (hreads : text.Reads (versionedJson recordJson (.current record)))
    (file : List UInt8) :
    ∃ line, AuditFileSink.writeLine (.ofJson text) file record .landed =
        (file ++ (encode line ++ [10]), .ok ()) ∧
      10 ∉ encode line ∧
      textLines (line ++ ['\n']) = [line] ∧
      ∀ lineNumber,
        readLine (.ofJson text) lineNumber line = some (.ok record) := by
  have hvisible := visible_compact hplain
    (versionedJson recordJson (.current record))
  have hnewline : '\n' ∉ text.print
      (versionedJson recordJson (.current record)) :=
    hvisible.not_mem (by decide)
  have hreturn : '\r' ∉ text.print
      (versionedJson recordJson (.current record)) :=
    hvisible.not_mem (by decide)
  refine ⟨text.print (versionedJson recordJson (.current record)),
    ?_, ?_, ?_, ?_⟩
  · simp only [AuditFileSink.writeLine, RecordCodec.ofJson, encode_append]
    rfl
  · intro hmem
    exact hnewline ((mem_encode_iff (by decide)).mp hmem)
  · exact lines_append_newline hnewline hreturn
  · exact readLine_print_ofJson hrange hreads

/-- The entry of an event determines the event, and the line of a record
determines the record. -/
theorem mirror_loses_nothing (text : JsonText) (hplain : text.Plain) :
    (∀ first second : AuthorizationEvent,
      first.entry = second.entry → first = second) ∧
    ∀ (record : AuditRecord) (file : List UInt8),
      record.outcome.InRange →
      text.Reads (versionedJson recordJson (.current record)) →
      ∃ line, AuditFileSink.writeLine (.ofJson text) file record .landed =
          (file ++ (encode line ++ [10]), .ok ()) ∧
        10 ∉ encode line ∧
        byteLines (encode line ++ [10]) = [encode line] ∧
        ∀ lineNumber,
          readLine (.ofJson text) lineNumber line = some (.ok record) := by
  constructor
  · intro first second heq
    exact entry_injective heq
  · intro record file hrange hreads
    rcases written_line_read_back hplain hrange hreads file with
      ⟨line, hwritten, hnewline, hlines, hline⟩
    refine ⟨line, hwritten, hnewline, ?_, hline⟩
    have hcontents : encode line ++ [10] = encode (line ++ ['\n']) := by
      rw [encode_append]
      rfl
    rw [hcontents, byteLines_encode, hlines, List.map_singleton]

/-- A record whose message has a line break of its own. -/
def brokenRecord : AuditRecord where
  eventId := ⟨⟨"agent-1"⟩, 0⟩
  recordedAt := ⟨-1, 500⟩
  operation := .requestLease
  requested := .requestLease ⟨⟨"fake"⟩, ⟨"gpu"⟩, "0"⟩ .unknown
  peer := sampleEntry.peer
  outcome := .enforcementRefused (.error "first line\nsecond line")
  response := .error .internal

theorem brokenRecord_loses_nothing :
    ∃ line, AuditFileSink.writeLine
        (.ofJson (.knowing
          (versionedJson recordJson (.current brokenRecord)))) []
        brokenRecord .landed = (encode line ++ [10], .ok ()) ∧
      10 ∉ encode line ∧
      byteLines (encode line ++ [10]) = [encode line] ∧
      ∀ lineNumber, readLine
        (.ofJson (.knowing
          (versionedJson recordJson (.current brokenRecord))))
        lineNumber line = some (.ok brokenRecord) :=
  (mirror_loses_nothing _ (JsonText.plain_knowing _)).2 brokenRecord []
    trivial (JsonText.reads_knowing _)

end Eltanin.Agent
