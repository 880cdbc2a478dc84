import Eltanin.AuditRecordModel
import Eltanin.LeaseModel
import Eltanin.TextLines
import Mathlib.Data.List.Sort

/-!
# The audit sink and the reader of its log

The sink gives each entry the next sequence number and writes one line; a
write which fails has used its number up.  The reader takes the whole file as
text, reads it line by line, and reports the numbers which are missing below
the highest one it has seen of an instance, where there is room for them.
-/

namespace Eltanin.Audit

open Json Eltanin.Core Backend Protocol TextLines

/-! ## Writing -/

structure AuditEntry where
  operation : RecordedOperation
  requested : RecordedRequest
  peer : RecordedPeer
  outcome : RecordedOutcome
  response : AgentResponse
  deriving DecidableEq

inductive AuditSinkError where
  | io (reason : String)
  | serialize (reason : String)
  deriving DecidableEq, Repr

/-- How the writer treats one line: it takes all of it and flushes, takes all
of it and fails to flush, or fails after a proper prefix. -/
inductive WriteFate where
  | landed
  | unflushed (reason : String)
  | failed (written : ℕ) (reason : String)
  deriving DecidableEq, Repr

/-- A sink without its writer, which is the file. -/
structure AuditFileSink where
  instanceId : IssuerInstanceId
  nextSequence : UInt64
  failedWrites : UInt64
  deriving DecidableEq, Repr

def AuditEntry.record (entry : AuditEntry) (eventId : AuditEventId)
    (recordedAt : WallClockTime) : AuditRecord where
  eventId := eventId
  recordedAt := recordedAt
  operation := entry.operation
  requested := entry.requested
  peer := entry.peer
  outcome := entry.outcome
  response := entry.response

namespace AuditFileSink

def fromWriter (instanceId : IssuerInstanceId) : AuditFileSink :=
  ⟨instanceId, 0, 0⟩

def writeLine (codec : RecordCodec) (file : List UInt8)
    (record : AuditRecord) (fate : WriteFate) :
    List UInt8 × Except AuditSinkError Unit :=
  match codec.print (.current record) with
  | .error reason => (file, .error (.serialize reason))
  | .ok text =>
      let line := encode (text ++ ['\n'])
      match fate with
      | .landed => (file ++ line, .ok ())
      | .unflushed reason => (file ++ line, .error (.io reason))
      | .failed written reason =>
          (file ++ line.dropLast.take written, .error (.io reason))

/-- The number is reserved before the write, and is not reserved again.  At
the last number the addition unwinds. -/
def reserve (self : AuditFileSink) :
    AuditFileSink × Completion AuditEventId :=
  if self.nextSequence.toNat + 1 < UInt64.size then
    ({ self with nextSequence := self.nextSequence + 1 },
      .returned ⟨self.instanceId, self.nextSequence⟩)
  else (self, .panicked)

def countFailure (self : AuditFileSink) : AuditFileSink :=
  { self with failedWrites := self.failedWrites + 1 }

/-- The end of `append`, without the lock. -/
def finish (self : AuditFileSink) (eventId : AuditEventId)
    (written : Except AuditSinkError Unit) :
    AuditFileSink × Except AuditSinkError AuditEventId :=
  match written with
  | .ok () => (self, .ok eventId)
  | .error error => (self.countFailure, .error error)

def append (codec : RecordCodec) (self : AuditFileSink) (file : List UInt8)
    (entry : AuditEntry) (recordedAt : WallClockTime) (fate : WriteFate) :
    AuditFileSink × List UInt8 ×
      Completion (Except AuditSinkError AuditEventId) :=
  match self.reserve with
  | (sink, .panicked) => (sink, file, .panicked)
  | (sink, .returned eventId) =>
      let written :=
        writeLine codec file (entry.record eventId recordedAt) fate
      let finished := sink.finish eventId written.2
      (finished.1, written.1, .returned finished.2)

end AuditFileSink

/-! ## Reading -/

inductive UnreadableReason where
  | unsupportedVersion (found expected : UInt16)
  | malformed (reason : String)
  deriving DecidableEq, Repr

structure UnreadableLine where
  lineNumber : ℕ
  reason : UnreadableReason
  eventId : Option AuditEventId
  deriving DecidableEq, Repr

structure LogScan where
  records : List AuditRecord
  unreadable : List UnreadableLine
  gaps : List AuditEventId
  deriving DecidableEq

inductive ExplainError where
  | io (reason : String)
  deriving DecidableEq, Repr

def recoverEventId (payload : JsonValue) : Option AuditEventId :=
  (payload.get "event_id").bind fun eventId =>
    ((eventId.get "instance").bind JsonValue.asStr).bind fun tag =>
      ((eventId.get "sequence").bind JsonValue.asU64).map fun sequence =>
        ⟨⟨tag⟩, sequence⟩

/-- `str::trim` leaves nothing of the line. -/
def IsBlank (line : List Char) : Prop := line.all isWhitespace = true

instance (line : List Char) : Decidable (IsBlank line) :=
  inferInstanceAs (Decidable (line.all isWhitespace = true))

/-- One round of the loop of `read_log`; a blank line is skipped. -/
def readLine (codec : RecordCodec) (lineNumber : ℕ) (line : List Char) :
    Option (Except UnreadableLine AuditRecord) :=
  if IsBlank line then none
  else
    match codec.parseValue line with
    | .error reason => some (.error ⟨lineNumber, .malformed reason, none⟩)
    | .ok envelope =>
        if envelope.version ≠ domainSchemaVersion then
          some (.error ⟨lineNumber,
            .unsupportedVersion envelope.version domainSchemaVersion,
            recoverEventId envelope.payload⟩)
        else
          match codec.parseRecord line with
          | .ok record => some (.ok record.payload)
          | .error reason =>
              some (.error ⟨lineNumber, .malformed reason,
                recoverEventId envelope.payload⟩)

def readLines (codec : RecordCodec) :
    ℕ → List (List Char) → List AuditRecord × List UnreadableLine
  | _, [] => ([], [])
  | index, line :: rest =>
      let scanned := readLines codec (index + 1) rest
      match readLine codec (index + 1) line with
      | none => scanned
      | some (.ok record) => (record :: scanned.1, scanned.2)
      | some (.error unreadable) => (scanned.1, unreadable :: scanned.2)

def presentIds (records : List AuditRecord)
    (unreadable : List UnreadableLine) : List AuditEventId :=
  records.map AuditRecord.eventId ++
    unreadable.filterMap UnreadableLine.eventId

def sequencesOf (instanceId : IssuerInstanceId)
    (present : List AuditEventId) : List ℕ :=
  (present.filter fun id => id.instanceId = instanceId).map
    fun id => id.sequence.toNat

/-- The ids which the loop over `0..=max` pushes.  A `BTreeMap` visits the
instances in the order of their tags. -/
def detectGaps (records : List AuditRecord)
    (unreadable : List UnreadableLine) : List AuditEventId :=
  let present := presentIds records unreadable
  let instances := (present.map AuditEventId.instanceId).dedup.insertionSort
    fun first second => first.tag ≤ second.tag
  instances.flatMap fun instanceId =>
    let sequences := sequencesOf instanceId present
    ((List.range (sequences.foldl max 0 + 1)).filter
      fun sequence => sequence ∉ sequences).map
        fun sequence => ⟨instanceId, UInt64.ofNat sequence⟩

/-- How many ids there is room for in the vector of gaps.  No vector holds
more than `isize::MAX` bytes, whatever the memory. -/
structure GapCapacity where
  ids : ℕ
  inRange : ids < 9223372036854775808

/-- `detect_gaps` with its vector: the push for which there is no room does
not return. -/
def detectGapsWithin (capacity : GapCapacity) (records : List AuditRecord)
    (unreadable : List UnreadableLine) : Completion (List AuditEventId) :=
  let gaps := detectGaps records unreadable
  if gaps.length ≤ capacity.ids then .returned gaps else .panicked

/-- The contents of the file are what `fs::read_to_string` finds. -/
def readLogWithin (capacity : GapCapacity) (codec : RecordCodec)
    (contents : List UInt8) : Completion (Except ExplainError LogScan) :=
  match decode? contents with
  | none => .returned (.error (.io "stream did not contain valid UTF-8"))
  | some text =>
      let scanned := readLines codec 0 (textLines text)
      match detectGapsWithin capacity scanned.1 scanned.2 with
      | .panicked => .panicked
      | .returned gaps => .returned (.ok ⟨scanned.1, scanned.2, gaps⟩)

/-- What `read_log` returns where there is room for the gaps. -/
def readLog (codec : RecordCodec) (contents : List UInt8) :
    Except ExplainError LogScan :=
  match decode? contents with
  | none => .error (.io "stream did not contain valid UTF-8")
  | some text =>
      let scanned := readLines codec 0 (textLines text)
      .ok ⟨scanned.1, scanned.2, detectGaps scanned.1 scanned.2⟩

theorem readLogWithin_eq_ok_iff {capacity : GapCapacity}
    {codec : RecordCodec} {contents : List UInt8} {scan : LogScan} :
    readLogWithin capacity codec contents = .returned (.ok scan) ↔
      readLog codec contents = .ok scan ∧
        scan.gaps.length ≤ capacity.ids := by
  unfold readLogWithin readLog detectGapsWithin
  cases decode? contents with
  | none => simp
  | some text =>
      by_cases hroom : (detectGaps (readLines codec 0 (textLines text)).1
          (readLines codec 0 (textLines text)).2).length ≤ capacity.ids
      · simp only [hroom, if_true, Completion.returned.injEq,
          Except.ok.injEq]
        constructor
        · rintro rfl
          exact ⟨rfl, hroom⟩
        · exact fun h => h.1
      · simp only [hroom, if_false, reduceCtorEq, false_iff, not_and]
        intro hscan
        rw [Except.ok.injEq] at hscan
        rw [← hscan]
        exact hroom

inductive Selector where
  | event (id : AuditEventId)
  | lease (id : LeaseId)
  | pid (pid : UInt32)
  deriving DecidableEq, Repr

inductive SelectionResult where
  | found (records : List AuditRecord)
  | notFound
  | possiblyLost
  deriving DecidableEq

def foundOrNot (records : List AuditRecord) : SelectionResult :=
  if records = [] then .notFound else .found records

def select (scan : LogScan) : Selector → SelectionResult
  | .event id =>
      match scan.records.find? fun record => record.eventId = id with
      | some record => .found [record]
      | none => if id ∈ scan.gaps then .possiblyLost else .notFound
  | .lease id =>
      foundOrNot (scan.records.filter fun record => record.leaseId = some id)
  | .pid pid =>
      foundOrNot
        (scan.records.filter fun record => record.peer.credential.pid = pid)

end Eltanin.Audit
