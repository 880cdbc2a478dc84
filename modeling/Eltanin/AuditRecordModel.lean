import Eltanin.JsonDocument
import Eltanin.PeerModel
import Eltanin.ProtocolModel

/-!
# Audit records

One record says what was asked, who asked as observed, what happened and what
the client was told.  Types which carry authority cannot be read back, so the
record has a plain mirror of each of them.  `serde_json` is not part of the
repository: printing and parsing are the three functions of a `RecordCodec`.
-/

namespace Eltanin.Audit

open Json Eltanin.Core Backend Protocol

structure AuditEventId where
  instanceId : IssuerInstanceId
  sequence : UInt64
  deriving DecidableEq, Repr

structure WallClockTime where
  unixSecs : Int64
  nanos : UInt32
  deriving DecidableEq

inductive RecordedOperation where
  | requestLease
  | releaseLease
  | agentStatus
  deriving DecidableEq, Repr

inductive RecordedRequest where
  | requestLease (resource : ResourceIdentity) (action : Action)
  | releaseLease (leaseId : LeaseId)
  | agentStatus
  deriving DecidableEq, Repr

structure RecordedPeerCredential where
  pid : UInt32
  effectiveUid : UInt32
  effectiveGid : UInt32
  deriving DecidableEq, Repr

inductive RecordedPeerConsistency where
  | consistent
  | credentialDivergence (peerEffectiveUid : UInt32)
      (observedRealUid observedEffectiveUid : Evidence UInt32)
  | peerUnmapped
  | indeterminate (reason : String)
  deriving DecidableEq, Repr

structure RecordedPeer where
  credential : RecordedPeerCredential
  consistency : RecordedPeerConsistency
  observed : ExecutionContext
  deriving DecidableEq, Repr

structure RecordedPolicyProvenance where
  policyId : PolicyId
  policyRevision : UInt32
  schemaVersion : UInt16
  deriving DecidableEq, Repr

inductive RecordedDecisionReason where
  | noMatchingRule
  | explicitAllow (matchedRules : Finset RuleId)
  | explicitDeny (matchedRules overriddenAllowRules : Finset RuleId)
  | indeterminateEvidence (rules : Finset RuleId)
  deriving DecidableEq

structure RecordedPolicyDecision where
  effect : Effect
  reason : RecordedDecisionReason
  policy : RecordedPolicyProvenance
  deriving DecidableEq

inductive RecordedLeaseError where
  | denied (decision : RecordedPolicyDecision)
  | nonPositiveTtl
  | ttlExceedsMaximum (requested maximum : Duration)
  | expiryOverflow
  deriving DecidableEq

inductive RecordedLeaseValidity where
  | valid (remaining : Duration)
  | foreignIssuer (issuedBy : IssuerInstanceId)
  | revoked
  | resourceMismatch
  | actionMismatch
  | workloadMismatch
  | workloadIndeterminate
  | executableMismatch
  | expired (expiredAt : MonotonicTime)
  deriving DecidableEq

inductive RecordedOutcome where
  | granted (leaseId : LeaseId) (expiresAt : MonotonicTime)
  | policyDenied (decision : RecordedPolicyDecision)
  | peerNotAuthorizable
  | leaseIssueFailed (error : RecordedLeaseError)
  | enforcementRefused (result : EnforcementResult)
  | backendFailed (error : BackendError)
  | capacityExhausted (outstanding : ℕ)
  | released (revocation : RevocationOutcome)
      (backend : Option EnforcementResult)
  | releaseRefused (validity : RecordedLeaseValidity)
  | releaseUnknownLease
  | statusReported
  deriving DecidableEq

structure AuditRecord where
  eventId : AuditEventId
  recordedAt : WallClockTime
  operation : RecordedOperation
  requested : RecordedRequest
  peer : RecordedPeer
  outcome : RecordedOutcome
  response : AgentResponse
  deriving DecidableEq

/-- The lease a record concerns: its own grant, or the target of a release. -/
def AuditRecord.leaseId (self : AuditRecord) : Option LeaseId :=
  match self.outcome, self.requested with
  | .granted leaseId _, _ => some leaseId
  | _, .releaseLease leaseId => some leaseId
  | _, _ => none

/-! ## Documents -/

/-- What `serde_json` prints a record as, and what it reads from a line: an
envelope with any payload, or an envelope with a record. -/
structure RecordCodec where
  print : Versioned AuditRecord → Except String (List Char)
  parseValue : List Char → Except String (Versioned JsonValue)
  parseRecord : List Char → Except String (Versioned AuditRecord)

/-- The characters with the Unicode property `White_Space`. -/
def isWhitespace (c : Char) : Bool :=
  (9 ≤ c.toNat && c.toNat ≤ 13) || c.toNat = 32 || c.toNat = 133 ||
    c.toNat = 160 || c.toNat = 5760 ||
    (8192 ≤ c.toNat && c.toNat ≤ 8202) || c.toNat = 8232 ||
    c.toNat = 8233 || c.toNat = 8239 || c.toNat = 8287 || c.toNat = 12288

/-- What is printed is visible text without control characters, and is read
back as what it was printed for. -/
structure RecordCodec.Faithful (codec : RecordCodec) : Prop where
  parseValue_print : ∀ {record text},
    codec.print (.current record) = .ok text →
      ∃ value, codec.parseValue text = .ok (.current value)
  parseRecord_print : ∀ {record text},
    codec.print (.current record) = .ok text →
      codec.parseRecord text = .ok (.current record)
  plain_print : ∀ {record text},
    codec.print (.current record) = .ok text →
      '\n' ∉ text ∧ '\r' ∉ text
  visible_print : ∀ {record text},
    codec.print (.current record) = .ok text →
      text.all isWhitespace = false

/-- Both ways of reading a line find the version in the same place, and
neither finds anything in a blank line. -/
structure RecordCodec.Consistent (codec : RecordCodec) : Prop where
  version_eq : ∀ {line envelope document},
    codec.parseValue line = .ok envelope →
      codec.parseRecord line = .ok document →
        document.version = envelope.version
  visible_parseValue : ∀ {line envelope},
    codec.parseValue line = .ok envelope → line.all isWhitespace = false
  visible_parseRecord : ∀ {line document},
    codec.parseRecord line = .ok document → line.all isWhitespace = false

/-! ## Codecs of finitely many documents -/

structure Document where
  record : AuditRecord
  payload : JsonValue
  text : List Char

namespace RecordCodec

/-- A codec which prints and reads the documents of a table, and takes every
other text for malformed. -/
def ofTable (table : List Document) : RecordCodec where
  print envelope :=
    match table.find? fun document => document.record = envelope.payload with
    | some document => .ok document.text
    | none => .error "unsupported"
  parseValue line :=
    match table.find? fun document => document.text = line with
    | some document => .ok (.current document.payload)
    | none => .error "trailing characters"
  parseRecord line :=
    match table.find? fun document => document.text = line with
    | some document => .ok (.current document.record)
    | none => .error "trailing characters"

variable {table : List Document}

theorem find?_text_eq_some
    (hdistinct : (table.map Document.text).Nodup) {document : Document}
    (hmem : document ∈ table) :
    table.find? (fun other => other.text = document.text) =
      some document := by
  induction table with
  | nil => simp at hmem
  | cons first rest ih =>
      rw [List.map_cons, List.nodup_cons] at hdistinct
      rcases List.mem_cons.mp hmem with heq | hrest
      · simp [heq]
      · have hne : first.text ≠ document.text := by
          intro heq
          exact hdistinct.1 (heq ▸ List.mem_map_of_mem hrest)
        simp [hne, ih hdistinct.2 hrest]

theorem faithful_ofTable (hdistinct : (table.map Document.text).Nodup)
    (hplain : ∀ document ∈ table,
      '\n' ∉ document.text ∧ '\r' ∉ document.text ∧
        document.text.all isWhitespace = false) :
    (ofTable table).Faithful := by
  have hprinted : ∀ {record text},
      (ofTable table).print (.current record) = .ok text →
        ∃ document ∈ table, document.record = record ∧
          document.text = text := by
    intro record text hprint
    simp only [ofTable, Versioned.current] at hprint
    split at hprint
    next document hfind =>
      have hrecord := List.find?_some hfind
      rw [decide_eq_true_eq] at hrecord
      exact ⟨document, List.mem_of_find?_eq_some hfind, hrecord,
        Except.ok.inj hprint⟩
    next => contradiction
  constructor
  case parseValue_print =>
    intro record text hprint
    obtain ⟨document, hmem, -, htext⟩ := hprinted hprint
    refine ⟨document.payload, ?_⟩
    simp [ofTable, ← htext, find?_text_eq_some hdistinct hmem]
  case parseRecord_print =>
    intro record text hprint
    obtain ⟨document, hmem, hrecord, htext⟩ := hprinted hprint
    simp [ofTable, ← htext, ← hrecord, find?_text_eq_some hdistinct hmem]
  case plain_print =>
    intro record text hprint
    obtain ⟨document, hmem, -, htext⟩ := hprinted hprint
    rw [← htext]
    exact ⟨(hplain document hmem).1, (hplain document hmem).2.1⟩
  case visible_print =>
    intro record text hprint
    obtain ⟨document, hmem, -, htext⟩ := hprinted hprint
    rw [← htext]
    exact (hplain document hmem).2.2

/-- The two readers of a table find one document. -/
theorem consistent_ofTable
    (hvisible : ∀ document ∈ table, document.text.all isWhitespace = false) :
    (ofTable table).Consistent := by
  have hfound : ∀ {line document},
      table.find? (fun document => document.text = line) = some document →
        line.all isWhitespace = false := by
    intro line document hfind
    have htext := List.find?_some hfind
    rw [decide_eq_true_eq] at htext
    rw [← htext]
    exact hvisible document (List.mem_of_find?_eq_some hfind)
  constructor
  case version_eq =>
    intro line envelope document hvalue hrecord
    simp only [ofTable] at hvalue hrecord
    split at hvalue
    next entry hfind =>
      rw [hfind] at hrecord
      rw [← Except.ok.inj hvalue, ← Except.ok.inj hrecord]
      rfl
    next => contradiction
  case visible_parseValue =>
    intro line envelope hvalue
    simp only [ofTable] at hvalue
    split at hvalue
    next entry hfind => exact hfound hfind
    next => contradiction
  case visible_parseRecord =>
    intro line document hrecord
    simp only [ofTable] at hrecord
    split at hrecord
    next entry hfind => exact hfound hfind
    next => contradiction

theorem parseValue_ofTable {line : List Char} {document : Versioned AuditRecord}
    (hrecord : (ofTable table).parseRecord line = .ok document) :
    ∃ envelope, (ofTable table).parseValue line = .ok envelope := by
  simp only [ofTable] at hrecord ⊢
  split at hrecord
  next entry hfind => exact ⟨.current entry.payload, rfl⟩
  next => contradiction

end RecordCodec

end Eltanin.Audit
