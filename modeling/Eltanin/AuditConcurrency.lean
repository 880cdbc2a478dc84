import Eltanin.AuditAcknowledgement
import Eltanin.InterleavedSessions
import Eltanin.NumberedAttempts

/-!
# Appends of many threads

Every call of `append` is a session: it reads the clock, enters the critical
section of its sink, where it gets its number, writes its line and leaves, and
afterwards counts a failure.  The sinks share one file but no lock.  When
every line lands whole or not at all, the reader finds exactly what has landed
and says of every other id whether it may have been lost.
-/

namespace Eltanin.Audit

open Eltanin.Core TextLines PartialExecution InterleavedSessions
open NumberedAttempts

structure SharedSink where
  sink : AuditFileSink
  locked : Bool
  deriving DecidableEq, Repr

structure SharedLog where
  sinks : List SharedSink
  file : List UInt8
  deriving DecidableEq, Repr

def SharedLog.setSink (log : SharedLog) (index : ℕ) (shared : SharedSink) :
    SharedLog :=
  { log with sinks := log.sinks.set index shared }

/-- The sinks of these instances on an empty file. -/
def SharedLog.opened (instances : List IssuerInstanceId) : SharedLog where
  sinks := instances.map fun instanceId => ⟨.fromWriter instanceId, false⟩
  file := []

inductive AppendPhase where
  | called
  | timed (recordedAt : WallClockTime)
  | entered (recordedAt : WallClockTime) (eventId : AuditEventId)
  | written (eventId : AuditEventId) (written : Except AuditSinkError Unit)
  | returned (result : Except AuditSinkError AuditEventId)
  | panicked

structure Appender where
  sink : ℕ
  entry : AuditEntry
  phase : AppendPhase

inductive AppendAction where
  | now (recordedAt : WallClockTime)
  | enter
  | write (fate : WriteFate)
  | finish

inductive AppendEvent where
  | entered (eventId : AuditEventId)
  | landed (record : AuditRecord)
  | lost (eventId : AuditEventId)
  deriving DecidableEq

/-- Whether the whole line is in the file after the write. -/
def settlement (codec : RecordCodec) (record : AuditRecord)
    (fate : WriteFate) : AppendEvent :=
  match codec.print (.current record), fate with
  | .ok _, .landed => .landed record
  | .ok _, .unflushed _ => .landed record
  | .ok _, .failed _ _ => .lost record.eventId
  | .error _, _ => .lost record.eventId

namespace Appender

def act (codec : RecordCodec) (log : SharedLog) (self : Appender)
    (action : AppendAction) :
    Option (SharedLog × Appender × List AppendEvent) :=
  match self.phase, action with
  | .called, .now recordedAt =>
      some (log, { self with phase := .timed recordedAt }, [])
  | .timed recordedAt, .enter =>
      match log.sinks[self.sink]? with
      | none => none
      | some shared =>
          if shared.locked then none
          else
            match shared.sink.reserve with
            | (sink, .panicked) =>
                some (log.setSink self.sink ⟨sink, false⟩,
                  { self with phase := .panicked }, [])
            | (sink, .returned eventId) =>
                some (log.setSink self.sink ⟨sink, true⟩,
                  { self with phase := .entered recordedAt eventId },
                  [.entered eventId])
  | .entered recordedAt eventId, .write fate =>
      match log.sinks[self.sink]? with
      | none => none
      | some shared =>
          let record := self.entry.record eventId recordedAt
          let written :=
            AuditFileSink.writeLine codec log.file record fate
          some (SharedLog.setSink { log with file := written.1 } self.sink
              { shared with locked := false },
            { self with phase := .written eventId written.2 },
            [settlement codec record fate])
  | .written eventId written, .finish =>
      match log.sinks[self.sink]? with
      | none => none
      | some shared =>
          let finished := shared.sink.finish eventId written
          some (log.setSink self.sink { shared with sink := finished.1 },
            { self with phase := .returned finished.2 }, [])
  | _, _ => none

def program (codec : RecordCodec) :
    Program SharedLog Appender (ℕ × AuditEntry) AppendAction AppendEvent where
  start opening := ⟨opening.1, opening.2, .called⟩
  act := act codec

end Appender

def WriteFate.Whole : WriteFate → Prop
  | .landed => True
  | .unflushed _ => True
  | .failed written _ => written = 0

def WritesWhole :
    InterleavedSessions.Action (ℕ × AuditEntry) AppendAction → Prop
  | .act _ (.write fate) => fate.Whole
  | _ => True

/-! ## What an interleaving has done -/

def landedRecord? : AppendEvent → Option AuditRecord
  | .entered _ => none
  | .landed record => some record
  | .lost _ => none

def enteredId? : AppendEvent → Option AuditEventId
  | .entered eventId => some eventId
  | .landed _ => none
  | .lost _ => none

def landedRecords (events : List AppendEvent) : List AuditRecord :=
  events.filterMap landedRecord?

def enteredIds (events : List AppendEvent) : List AuditEventId :=
  events.filterMap enteredId?

def BelowLanded (events : List AppendEvent) (id : AuditEventId) : Prop :=
  ∃ record, .landed record ∈ events ∧
    record.eventId.instanceId = id.instanceId ∧
      id.sequence < record.eventId.sequence

/-- The scan tells of every id what has become of it. -/
structure Classified (events : List AppendEvent) (scan : LogScan) :
    Prop where
  records_eq : scan.records = landedRecords events
  unreadable_eq : scan.unreadable = []
  increasing : ∀ instanceId,
    (sequencesOf instanceId (scan.records.map AuditRecord.eventId)).Pairwise
      (· < ·)
  entered_in_order : ∀ instanceId, ∃ count,
    sequencesOf instanceId (enteredIds events) = List.range count
  gaps_nodup : scan.gaps.Nodup
  mem_gaps_iff : ∀ id,
    id ∈ scan.gaps ↔ .lost id ∈ events ∧ BelowLanded events id
  select_landed : ∀ record, .landed record ∈ events →
    select scan (.event record.eventId) = .found [record]
  select_lost : ∀ id,
    (∀ record, .landed record ∈ events → record.eventId ≠ id) →
      BelowLanded events id → select scan (.event id) = .possiblyLost
  select_other : ∀ id,
    (∀ record, .landed record ∈ events → record.eventId ≠ id) →
      ¬BelowLanded events id → select scan (.event id) = .notFound

/-! ## The attempts of one instance -/

def attemptOf (instanceId : IssuerInstanceId) :
    AppendEvent → Option Attempt
  | .entered eventId =>
      if eventId.instanceId = instanceId then
        some (.entered eventId.sequence.toNat)
      else none
  | .landed record =>
      if record.eventId.instanceId = instanceId then
        some (.landed record.eventId.sequence.toNat)
      else none
  | .lost eventId =>
      if eventId.instanceId = instanceId then
        some (.lost eventId.sequence.toNat)
      else none

def attempts (instanceId : IssuerInstanceId) (events : List AppendEvent) :
    List Attempt :=
  events.filterMap (attemptOf instanceId)

def AppendEvent.instanceId : AppendEvent → IssuerInstanceId
  | .entered eventId => eventId.instanceId
  | .landed record => record.eventId.instanceId
  | .lost eventId => eventId.instanceId

variable {instanceId : IssuerInstanceId} {events : List AppendEvent}
  {id : AuditEventId}

theorem attemptOf_eq_none {event : AppendEvent}
    (hne : event.instanceId ≠ instanceId) :
    attemptOf instanceId event = none := by
  cases event with
  | entered eventId => exact if_neg hne
  | landed record => exact if_neg hne
  | lost eventId => exact if_neg hne

theorem instanceId_of_attemptOf {event : AppendEvent} {attempt : Attempt}
    (hattempt : attemptOf instanceId event = some attempt) :
    event.instanceId = instanceId := by
  by_contra hne
  rw [attemptOf_eq_none hne] at hattempt
  contradiction

theorem attempts_append_ne {event : AppendEvent}
    (hne : event.instanceId ≠ instanceId) :
    attempts instanceId (events ++ [event]) = attempts instanceId events := by
  simp [attempts, attemptOf_eq_none hne]

theorem landed_mem_attempts_iff {number : ℕ} :
    .landed number ∈ attempts instanceId events ↔
      ∃ record, .landed record ∈ events ∧
        record.eventId.instanceId = instanceId ∧
          record.eventId.sequence.toNat = number := by
  rw [attempts, List.mem_filterMap]
  constructor
  · intro hmem
    obtain ⟨event, hevent, hattempt⟩ := hmem
    cases event with
    | entered eventId => simp [attemptOf] at hattempt
    | landed record =>
        simp only [attemptOf, Option.ite_none_right_eq_some,
          Option.some.injEq, Attempt.landed.injEq] at hattempt
        exact ⟨record, hevent, hattempt⟩
    | lost eventId => simp [attemptOf] at hattempt
  · intro hrecord
    obtain ⟨record, hmem, hinstance, hnumber⟩ := hrecord
    exact ⟨.landed record, hmem, by simp [attemptOf, hinstance, hnumber]⟩

theorem lost_mem_attempts_iff :
    .lost id.sequence.toNat ∈ attempts id.instanceId events ↔
      .lost id ∈ events := by
  rw [attempts, List.mem_filterMap]
  constructor
  · intro hmem
    obtain ⟨event, hevent, hattempt⟩ := hmem
    cases event with
    | entered eventId => simp [attemptOf] at hattempt
    | landed record => simp [attemptOf] at hattempt
    | lost eventId =>
        simp only [attemptOf, Option.ite_none_right_eq_some,
          Option.some.injEq, Attempt.lost.injEq, UInt64.toNat_inj]
          at hattempt
        have heq : eventId = id := by
          rw [AuditEventId.mk.injEq]
          exact hattempt
        exact heq ▸ hevent
  · intro hmem
    exact ⟨.lost id, hmem, by simp [attemptOf]⟩

theorem landedNumbers_attempts :
    landedNumbers (attempts instanceId events) =
      sequencesOf instanceId
        ((landedRecords events).map AuditRecord.eventId) := by
  induction events with
  | nil => rfl
  | cons event rest ih =>
      simp only [attempts, landedNumbers, landedRecords, sequencesOf] at ih ⊢
      cases event with
      | entered eventId =>
          by_cases hinstance : eventId.instanceId = instanceId <;>
            simp [List.filterMap_cons, attemptOf, landedNumber, landedRecord?,
              hinstance, ih]
      | landed record =>
          by_cases hinstance : record.eventId.instanceId = instanceId <;>
            simp [attemptOf, landedNumber, landedRecord?,
              hinstance, ih]
      | lost eventId =>
          by_cases hinstance : eventId.instanceId = instanceId <;>
            simp [List.filterMap_cons, attemptOf, landedNumber, landedRecord?,
              hinstance, ih]

theorem enteredNumbers_attempts :
    enteredNumbers (attempts instanceId events) =
      sequencesOf instanceId (enteredIds events) := by
  induction events with
  | nil => rfl
  | cons event rest ih =>
      simp only [attempts, enteredNumbers, enteredIds, sequencesOf] at ih ⊢
      cases event with
      | entered eventId =>
          by_cases hinstance : eventId.instanceId = instanceId <;>
            simp [attemptOf, enteredNumber, enteredId?,
              hinstance, ih]
      | landed record =>
          by_cases hinstance : record.eventId.instanceId = instanceId <;>
            simp [List.filterMap_cons, attemptOf, enteredNumber, enteredId?,
              hinstance, ih]
      | lost eventId =>
          by_cases hinstance : eventId.instanceId = instanceId <;>
            simp [List.filterMap_cons, attemptOf, enteredNumber, enteredId?,
              hinstance, ih]

theorem mem_landedRecords_iff {record : AuditRecord} :
    record ∈ landedRecords events ↔ .landed record ∈ events := by
  rw [landedRecords, List.mem_filterMap]
  constructor
  · intro hmem
    obtain ⟨event, hevent, hrecord⟩ := hmem
    cases event with
    | entered eventId => contradiction
    | landed other =>
        rw [← Option.some.inj hrecord]
        exact hevent
    | lost eventId => contradiction
  · intro hmem
    exact ⟨_, hmem, rfl⟩

/-! ## Classification by the log of attempts -/

/-- The attempts of every instance are served one at a time. -/
def AllServed (events : List AppendEvent) : Prop :=
  ∀ instanceId, ∃ count pending,
    Served (attempts instanceId events) count pending

namespace AllServed

theorem lost_iff (hserved : AllServed events) (hbelow : BelowLanded events id) :
    .lost id ∈ events ↔
      ∀ record, .landed record ∈ events → record.eventId ≠ id := by
  obtain ⟨count, pending, hinstance⟩ := hserved id.instanceId
  obtain ⟨higher, hhigher, hsame, hlt⟩ := hbelow
  have hlanded : .landed higher.eventId.sequence.toNat ∈
      attempts id.instanceId events :=
    landed_mem_attempts_iff.mpr ⟨higher, hhigher, hsame, rfl⟩
  rw [← lost_mem_attempts_iff,
    hinstance.lost_iff_of_lt hlanded (UInt64.lt_iff_toNat_lt.mp hlt),
    landed_mem_attempts_iff]
  constructor
  · intro hnone record hrecord heq
    exact hnone ⟨record, hrecord, by rw [heq], by rw [heq]⟩
  · intro hnone hrecord
    obtain ⟨record, hmem, hinstance, hnumber⟩ := hrecord
    apply hnone record hmem
    rw [AuditEventId.mk.injEq]
    exact ⟨hinstance, UInt64.toNat_inj.mp hnumber⟩

theorem eq_of_eventId_eq (hserved : AllServed events)
    {record other : AuditRecord} (hrecord : .landed record ∈ events)
    (hother : .landed other ∈ events)
    (heq : record.eventId = other.eventId) : record = other := by
  obtain ⟨count, pending, hinstance⟩ := hserved other.eventId.instanceId
  have hdistinct := hinstance.landedNumbers_pairwise
  rw [landedNumbers_attempts, sequencesOf, List.filter_map, List.map_map]
    at hdistinct
  have hnodup := hdistinct.imp fun hlt => Nat.ne_of_lt hlt
  apply List.inj_on_of_nodup_map hnodup
  · rw [List.mem_filter, mem_landedRecords_iff]
    exact ⟨hrecord, by simp [heq]⟩
  · rw [List.mem_filter, mem_landedRecords_iff]
    exact ⟨hother, by simp⟩
  · simp [heq]

theorem classified (hserved : AllServed events) {scan : LogScan}
    (hscan : scan = ⟨landedRecords events, [],
      detectGaps (landedRecords events) []⟩) :
    Classified events scan := by
  have hpresent : ∀ {id},
      id ∈ presentIds (landedRecords events) [] ↔
        ∃ record, .landed record ∈ events ∧ record.eventId = id := by
    intro id
    simp [presentIds, mem_landedRecords_iff]
  have hgaps : ∀ id, id ∈ scan.gaps ↔
      (∀ record, .landed record ∈ events → record.eventId ≠ id) ∧
        BelowLanded events id := by
    intro id
    rw [hscan, mem_detectGaps_iff, hpresent, BelowLanded]
    constructor
    · rintro ⟨hnot, other, hother, hinstance, hlt⟩
      obtain ⟨record, hrecord, heq⟩ := hpresent.mp hother
      refine ⟨fun record hrecord heq => hnot ⟨record, hrecord, heq⟩,
        record, hrecord, ?_⟩
      rw [heq]
      exact ⟨hinstance, hlt⟩
    · rintro ⟨hnot, record, hrecord, hinstance, hlt⟩
      refine ⟨?_, record.eventId, hpresent.mpr ⟨record, hrecord, rfl⟩,
        hinstance, hlt⟩
      rintro ⟨other, hother, heq⟩
      exact hnot other hother heq
  have hmissing : ∀ id,
      (∀ record, .landed record ∈ events → record.eventId ≠ id) →
        scan.records.find? (fun record => record.eventId = id) = none := by
    intro id hnot
    rw [hscan, List.find?_eq_none]
    intro record hrecord
    simpa using hnot record (mem_landedRecords_iff.mp hrecord)
  constructor
  case records_eq => rw [hscan]
  case unreadable_eq => rw [hscan]
  case increasing =>
    intro instanceId
    obtain ⟨count, pending, hinstance⟩ := hserved instanceId
    rw [hscan, ← landedNumbers_attempts]
    exact hinstance.landedNumbers_pairwise
  case entered_in_order =>
    intro instanceId
    obtain ⟨count, pending, hinstance⟩ := hserved instanceId
    exact ⟨count, by rw [← enteredNumbers_attempts,
      hinstance.enteredNumbers_eq]⟩
  case gaps_nodup =>
    rw [hscan]
    exact nodup_detectGaps
  case mem_gaps_iff =>
    intro id
    rw [hgaps]
    apply and_congr_left
    intro hbelow
    exact (hserved.lost_iff hbelow).symm
  case select_landed =>
    intro record hrecord
    have hmem : record ∈ scan.records := by
      rw [hscan]
      exact mem_landedRecords_iff.mpr hrecord
    obtain ⟨found, hselect, hfound, hid⟩ := select_event_eq_found hmem
    rw [hscan, mem_landedRecords_iff] at hfound
    rw [hselect, hserved.eq_of_eventId_eq hfound hrecord hid]
  case select_lost =>
    intro id hnot hbelow
    simp [select, hmissing id hnot, (hgaps id).mpr ⟨hnot, hbelow⟩]
  case select_other =>
    intro id hnot hbelow
    have hgap : id ∉ scan.gaps := fun hmem => hbelow ((hgaps id).mp hmem).2
    simp [select, hmissing id hnot, hgap]

end AllServed

end Eltanin.Audit
