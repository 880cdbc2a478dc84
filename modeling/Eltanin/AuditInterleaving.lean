import Eltanin.AuditConcurrency

/-!
# Runs of interleaved appends

The lock of a sink lets one call at a time hold a number, so the calls of one
instance are served one after the other, whatever the calls of the others do.
Together with the contents of the file this is kept by every step.
-/

namespace Eltanin.Audit

open Eltanin.Core TextLines PartialExecution InterleavedSessions
open NumberedAttempts

variable {codec : RecordCodec}

/-! ## The file -/

def FileHolds (codec : RecordCodec) (file : List UInt8)
    (records : List AuditRecord) : Prop :=
  ∃ texts, List.Forall₂
      (fun record text => codec.print (.current record) = .ok text)
      records texts ∧
    file = encode (texts.flatMap fun text => text ++ ['\n'])

theorem FileHolds.append {file : List UInt8} {records : List AuditRecord}
    {record : AuditRecord} {text : List Char}
    (hholds : FileHolds codec file records)
    (hprint : codec.print (.current record) = .ok text) :
    FileHolds codec (file ++ encode (text ++ ['\n']))
      (records ++ [record]) := by
  obtain ⟨texts, hprinted, hfile⟩ := hholds
  refine ⟨texts ++ [text], ?_, ?_⟩
  · exact List.rel_append hprinted (List.Forall₂.cons hprint .nil)
  · rw [hfile, ← encode_append]
    simp

theorem readLines_printed (hfaithful : codec.Faithful) (index : ℕ)
    {records : List AuditRecord} {texts : List (List Char)}
    (hprinted : List.Forall₂
      (fun record text => codec.print (.current record) = .ok text)
      records texts) :
    readLines codec index texts = (records, []) := by
  induction hprinted generalizing index with
  | nil => rfl
  | cons hprint _ ih =>
      simp only [readLines, ih (index + 1),
        readLine_print hfaithful (index + 1) hprint]

theorem plain_of_printed (hfaithful : codec.Faithful)
    {records : List AuditRecord} {texts : List (List Char)}
    (hprinted : List.Forall₂
      (fun record text => codec.print (.current record) = .ok text)
      records texts) :
    ∀ text ∈ texts, '\n' ∉ text ∧ '\r' ∉ text := by
  induction hprinted with
  | nil => simp
  | cons hprint _ ih =>
      intro text htext
      rcases List.mem_cons.mp htext with hfirst | hrest
      · rw [hfirst]
        exact hfaithful.plain_print hprint
      · exact ih text hrest

theorem FileHolds.readLog_eq {file : List UInt8}
    {records : List AuditRecord} (hfaithful : codec.Faithful)
    (hholds : FileHolds codec file records) :
    readLog codec file = .ok ⟨records, [], detectGaps records []⟩ := by
  obtain ⟨texts, hprinted, hfile⟩ := hholds
  have hlines : textLines
      (texts.flatMap (fun text => text ++ ['\n']) ++ []) =
        texts.map id ++ textLines [] :=
    lines_flatMap_append (plain_of_printed hfaithful hprinted)
  have hnone : textLines [] = [] := rfl
  rw [List.append_nil, List.map_id, hnone, List.append_nil] at hlines
  rw [hfile, readLog, decode?_encode]
  simp only [hlines, readLines_printed hfaithful 0 hprinted]

/-! ## Steps -/

/-- The numbers a sink has given out, and whether the last one is held. -/
structure Counter where
  instanceId : IssuerInstanceId
  next : ℕ
  pending : Bool
  deriving DecidableEq, Repr

def SharedSink.counter (shared : SharedSink) : Counter :=
  ⟨shared.sink.instanceId, shared.sink.nextSequence.toNat, shared.locked⟩

def SharedLog.counters (log : SharedLog) : List Counter :=
  log.sinks.map SharedSink.counter

namespace SharedLog

variable {log : SharedLog} {index : ℕ} {shared next : SharedSink}

theorem counters_setSink :
    (log.setSink index next).counters =
      log.counters.set index next.counter := by
  rw [counters, setSink, List.map_set]
  rfl

theorem getElem?_counters (hshared : log.sinks[index]? = some shared) :
    log.counters[index]? = some shared.counter := by
  rw [counters, List.getElem?_map, hshared]
  rfl

theorem counters_setSink_of_eq (hshared : log.sinks[index]? = some shared)
    (heq : next.counter = shared.counter) :
    (log.setSink index next).counters = log.counters := by
  obtain ⟨hlt, hget⟩ := List.getElem?_eq_some_iff.mp (getElem?_counters hshared)
  rw [counters_setSink, heq, ← hget, List.set_getElem_self]

end SharedLog

def AppendPhase.entered? : AppendPhase → Option AuditEventId
  | .entered _ eventId => some eventId
  | _ => none

theorem reserve_cases (sink : AuditFileSink) :
    sink.reserve = (sink, .panicked) ∨
      ∃ next, sink.reserve =
          (next, .returned ⟨sink.instanceId, sink.nextSequence⟩) ∧
        next.instanceId = sink.instanceId ∧
        next.nextSequence.toNat = sink.nextSequence.toNat + 1 := by
  unfold AuditFileSink.reserve
  by_cases hlast : sink.nextSequence.toNat + 1 < UInt64.size
  · right
    refine ⟨{ sink with nextSequence := sink.nextSequence + 1 },
      by simp [hlast], rfl, ?_⟩
    rw [UInt64.toNat_add]
    exact Nat.mod_eq_of_lt hlast
  · left
    simp [hlast]

theorem counter_finish (sink : AuditFileSink) (id : AuditEventId)
    (written : Except AuditSinkError Unit) :
    (sink.finish id written).1.instanceId = sink.instanceId ∧
      (sink.finish id written).1.nextSequence = sink.nextSequence := by
  cases written <;> exact ⟨rfl, rfl⟩

/-- One step of a call: nothing the others rely on changes, or the call
enters, or its write settles. -/
theorem act_cases {log after : SharedLog} {self next : Appender}
    {action : AppendAction} {new : List AppendEvent}
    (hact : Appender.act codec log self action = some (after, next, new)) :
    next.sink = self.sink ∧
      ((after.counters = log.counters ∧ after.file = log.file ∧ new = [] ∧
          next.phase.entered? = none) ∨
        (∃ id,
          log.counters[self.sink]? =
            some ⟨id.instanceId, id.sequence.toNat, false⟩ ∧
          after.counters = log.counters.set self.sink
            ⟨id.instanceId, id.sequence.toNat + 1, true⟩ ∧
          after.file = log.file ∧ new = [.entered id] ∧
          next.phase.entered? = some id) ∨
        ∃ id recordedAt fate counter,
          self.phase.entered? = some id ∧ action = .write fate ∧
          log.counters[self.sink]? = some counter ∧
          after.counters = log.counters.set self.sink
            { counter with pending := false } ∧
          after.file = (AuditFileSink.writeLine codec log.file
            (self.entry.record id recordedAt) fate).1 ∧
          new = [settlement codec (self.entry.record id recordedAt) fate] ∧
          next.phase.entered? = none) := by
  unfold Appender.act at hact
  split at hact
  case h_1 recordedAt hphase =>
    cases hact
    exact ⟨rfl, Or.inl ⟨rfl, rfl, rfl, rfl⟩⟩
  case h_2 recordedAt hphase =>
    split at hact
    · contradiction
    next shared hshared =>
      split at hact
      · contradiction
      next hfree =>
        rw [Bool.not_eq_true] at hfree
        have hcounter := SharedLog.getElem?_counters hshared
        rcases reserve_cases shared.sink with
          hreserve | ⟨sink, hreserve, hinstance, hnext⟩
        · simp only [hreserve, Option.some.injEq, Prod.mk.injEq] at hact
          obtain ⟨rfl, rfl, rfl⟩ := hact
          refine ⟨rfl, Or.inl ⟨?_, rfl, rfl, rfl⟩⟩
          apply SharedLog.counters_setSink_of_eq hshared
          rw [SharedSink.counter, SharedSink.counter, hfree]
        · simp only [hreserve, Option.some.injEq, Prod.mk.injEq] at hact
          obtain ⟨rfl, rfl, rfl⟩ := hact
          refine ⟨rfl, Or.inr (Or.inl ⟨_, ?_, ?_, rfl, rfl, rfl⟩)⟩
          · rw [hcounter, SharedSink.counter, hfree]
          · rw [SharedLog.counters_setSink, SharedSink.counter, hinstance,
              hnext]
  case h_3 recordedAt id fate hphase =>
    split at hact
    · contradiction
    next shared hshared =>
      simp only [Option.some.injEq, Prod.mk.injEq] at hact
      obtain ⟨rfl, rfl, rfl⟩ := hact
      refine ⟨rfl, Or.inr (Or.inr ⟨id, recordedAt, fate, shared.counter,
        by rw [hphase]; rfl, rfl, SharedLog.getElem?_counters hshared, ?_,
        rfl, rfl, rfl⟩)⟩
      exact SharedLog.counters_setSink
  case h_4 id written hphase =>
    split at hact
    · contradiction
    next shared hshared =>
      simp only [Option.some.injEq, Prod.mk.injEq] at hact
      obtain ⟨rfl, rfl, rfl⟩ := hact
      refine ⟨rfl, Or.inl ⟨?_, rfl, rfl, rfl⟩⟩
      apply SharedLog.counters_setSink_of_eq hshared
      have hfinish := counter_finish shared.sink id written
      rw [SharedSink.counter, SharedSink.counter, hfinish.1, hfinish.2]
  case h_5 => contradiction

theorem settlement_cases (codec : RecordCodec) (file : List UInt8)
    (record : AuditRecord) {fate : WriteFate} (hwhole : fate.Whole) :
    (∃ text, codec.print (.current record) = .ok text ∧
        settlement codec record fate = .landed record ∧
        (AuditFileSink.writeLine codec file record fate).1 =
          file ++ encode (text ++ ['\n'])) ∨
      (settlement codec record fate = .lost record.eventId ∧
        (AuditFileSink.writeLine codec file record fate).1 = file) := by
  unfold settlement AuditFileSink.writeLine
  cases hprint : codec.print (.current record) with
  | error reason => exact Or.inr ⟨rfl, rfl⟩
  | ok text =>
      cases fate with
      | landed => exact Or.inl ⟨text, rfl, rfl, rfl⟩
      | unflushed reason => exact Or.inl ⟨text, rfl, rfl, rfl⟩
      | failed written reason =>
          have hnone : written = 0 := hwhole
          refine Or.inr ⟨rfl, ?_⟩
          simp [hnone]

/-! ## The counters and the log -/

/-- Every counter serves the attempts of its instance. -/
structure Ordered (counters : List Counter) (events : List AppendEvent) :
    Prop where
  distinct : (counters.map Counter.instanceId).Nodup
  known : ∀ event ∈ events,
    event.instanceId ∈ counters.map Counter.instanceId
  served : ∀ {index : ℕ} {counter : Counter},
    counters[index]? = some counter →
    Served (attempts counter.instanceId events) counter.next counter.pending

namespace Ordered

variable {counters : List Counter} {events : List AppendEvent}
  {index : ℕ} {counter : Counter} {event : AppendEvent}

theorem map_instanceId_set (hcounter : counters[index]? = some counter)
    {next : ℕ} {pending : Bool} :
    (counters.set index ⟨counter.instanceId, next, pending⟩).map
        Counter.instanceId = counters.map Counter.instanceId := by
  obtain ⟨hlt, hget⟩ := List.getElem?_eq_some_iff.mp hcounter
  rw [List.map_set]
  apply List.ext_getElem
  · simp
  · intro other hleft hright
    by_cases heq : index = other
    · subst heq
      simp [hget]
    · simp [heq]

/-- An event of the instance of a counter is one more of the attempts which
the counter serves, and is nothing to the other counters. -/
theorem advance (hordered : Ordered counters events)
    (hcounter : counters[index]? = some counter) {attempt : Attempt}
    (hattempt : attemptOf counter.instanceId event = some attempt)
    {next : ℕ} {pending : Bool}
    (hserved : Served (attempts counter.instanceId events ++ [attempt])
      next pending) :
    Ordered (counters.set index ⟨counter.instanceId, next, pending⟩)
      (events ++ [event]) where
  distinct := by
    rw [map_instanceId_set hcounter]
    exact hordered.distinct
  known := by
    intro other hother
    rw [map_instanceId_set hcounter]
    rcases List.mem_append.mp hother with hold | hnew
    · exact hordered.known other hold
    · rw [List.mem_singleton.mp hnew, instanceId_of_attemptOf hattempt]
      exact List.mem_map_of_mem (List.mem_of_getElem? hcounter)
  served := by
    intro other found hfound
    obtain ⟨hlt, hget⟩ := List.getElem?_eq_some_iff.mp hcounter
    have hevent := instanceId_of_attemptOf hattempt
    by_cases heq : index = other
    · subst heq
      rw [List.getElem?_set_self hlt, Option.some.injEq] at hfound
      have hattempts : attempts counter.instanceId (events ++ [event]) =
          attempts counter.instanceId events ++ [attempt] := by
        simp [attempts, hattempt]
      rw [← hfound, hattempts]
      exact hserved
    · rw [List.getElem?_set_ne heq] at hfound
      have hne : event.instanceId ≠ found.instanceId := by
        intro hsame
        apply heq
        have hmapped : (counters.map Counter.instanceId)[index]? =
            (counters.map Counter.instanceId)[other]? := by
          simp [hcounter, hfound, ← hevent, hsame]
        exact (List.getElem?_inj (by simpa using hlt) hordered.distinct).mp
          hmapped
      rw [attempts_append_ne hne]
      exact hordered.served hfound

theorem allServed (hordered : Ordered counters events) :
    AllServed events := by
  intro instanceId
  by_cases hknown : instanceId ∈ counters.map Counter.instanceId
  · obtain ⟨counter, hmem, heq⟩ := List.mem_map.mp hknown
    obtain ⟨index, hindex⟩ := List.mem_iff_getElem?.mp hmem
    rw [← heq]
    exact ⟨_, _, hordered.served hindex⟩
  · have hnone : attempts instanceId events = [] := by
      rw [attempts, List.filterMap_eq_nil_iff]
      intro event hevent
      apply attemptOf_eq_none
      intro heq
      exact hknown (heq ▸ hordered.known event hevent)
    rw [hnone]
    exact ⟨0, false, .empty⟩

end Ordered

/-! ## Runs -/

abbrev Appends := System SharedLog Appender AppendEvent

def eventsOf (system : Appends) : List AppendEvent :=
  system.transcript.map Prod.snd

/-- What every step keeps: the lock of a sink belongs to the one call which
holds the last number of its counter. -/
structure Consistent (codec : RecordCodec) (system : Appends) : Prop where
  ordered : Ordered system.shared.counters (eventsOf system)
  holds : FileHolds codec system.shared.file
    (landedRecords (eventsOf system))
  entered : ∀ {session : ℕ} {call : Appender} {id : AuditEventId},
    system.sessions[session]? = some call → call.phase.entered? = some id →
      system.shared.counters[call.sink]? =
        some ⟨id.instanceId, id.sequence.toNat + 1, true⟩ ∧
      (session, .entered id) ∈ system.transcript
  alone : ∀ {session other : ℕ} {call another : Appender},
    system.sessions[session]? = some call →
      system.sessions[other]? = some another →
      call.phase.entered?.isSome → another.phase.entered?.isSome →
      call.sink = another.sink → session = other
  own : ∀ session record, (session, .landed record) ∈ system.transcript →
    (session, .entered record.eventId) ∈ system.transcript

namespace Consistent

variable {system : Appends} {session : ℕ} {self next : Appender}
  {after : SharedLog}

theorem initial {instances : List IssuerInstanceId}
    (hdistinct : instances.Nodup) :
    Consistent codec (.initial (.opened instances)) where
  ordered :=
    { distinct := by
        simpa [SharedLog.counters, SharedLog.opened, System.initial,
          SharedSink.counter, AuditFileSink.fromWriter,
          Function.comp_def] using hdistinct
      known := by simp [eventsOf, System.initial]
      served := by
        intro index counter hcounter
        simp only [SharedLog.counters, SharedLog.opened, System.initial,
          List.map_map, List.getElem?_map, Option.map_eq_some_iff]
          at hcounter
        obtain ⟨instanceId, -, heq⟩ := hcounter
        rw [← heq]
        exact .empty }
  holds := ⟨[], .nil, rfl⟩
  entered := by simp [System.initial]
  alone := by simp [System.initial]
  own := by simp [System.initial]

theorem enroll (hsystem : Consistent codec system)
    (opening : ℕ × AuditEntry) :
    Consistent codec
      (system.enroll ((Appender.program codec).start opening)) where
  ordered := hsystem.ordered
  holds := hsystem.holds
  entered := by
    intro session call id hcall hentered
    rcases System.getElem?_enroll_eq_some_iff.mp hcall with
      ⟨-, hnew⟩ | hold
    · rw [hnew] at hentered
      contradiction
    · exact hsystem.entered hold hentered
  alone := by
    intro session other call another hcall hanother hentered hothers
    rcases System.getElem?_enroll_eq_some_iff.mp hcall with
      ⟨-, hnew⟩ | hold
    · rw [hnew] at hentered
      contradiction
    rcases System.getElem?_enroll_eq_some_iff.mp hanother with
      ⟨-, hnew⟩ | hold'
    · rw [hnew] at hothers
      contradiction
    exact hsystem.alone hold hold' hentered hothers
  own := hsystem.own

theorem eventsOf_advance (new : List AppendEvent) :
    eventsOf (system.advance session after next new) =
      eventsOf system ++ new := by
  simp [eventsOf, System.advance, Function.comp_def]

theorem mem_advance_of_mem {event : ℕ × AppendEvent} (new : List AppendEvent)
    (hevent : event ∈ system.transcript) :
    event ∈ (system.advance session after next new).transcript :=
  System.mem_transcript_advance_iff.mpr (Or.inl hevent)

theorem alone_advance (hsystem : Consistent codec system)
    (hself : system.sessions[session]? = some self)
    (hnone : next.phase.entered? = none) (new : List AppendEvent)
    {first second : ℕ} {call another : Appender}
    (hcall : (system.advance session after next new).sessions[first]? =
      some call)
    (hanother : (system.advance session after next new).sessions[second]? =
      some another)
    (hentered : call.phase.entered?.isSome)
    (hothers : another.phase.entered?.isSome)
    (hsink : call.sink = another.sink) : first = second := by
  rcases (System.getElem?_advance_eq_some_iff hself).mp hcall with
    ⟨-, hnew⟩ | ⟨-, hold⟩
  · rw [hnew, hnone] at hentered
    contradiction
  rcases (System.getElem?_advance_eq_some_iff hself).mp hanother with
    ⟨-, hnew⟩ | ⟨-, hold'⟩
  · rw [hnew, hnone] at hothers
    contradiction
  exact hsystem.alone hold hold' hentered hothers hsink

theorem advance_quiet (hsystem : Consistent codec system)
    (hself : system.sessions[session]? = some self)
    (hcounters : after.counters = system.shared.counters)
    (hfile : after.file = system.shared.file)
    (hnone : next.phase.entered? = none) :
    Consistent codec (system.advance session after next []) where
  ordered := by
    rw [eventsOf_advance, List.append_nil]
    exact hcounters ▸ hsystem.ordered
  holds := by
    rw [eventsOf_advance, List.append_nil]
    exact hfile ▸ hsystem.holds
  entered := by
    intro other call id hcall hentered
    rcases (System.getElem?_advance_eq_some_iff hself).mp hcall with
      ⟨-, hnew⟩ | ⟨-, hold⟩
    · rw [hnew, hnone] at hentered
      contradiction
    · obtain ⟨hcounter, hmem⟩ := hsystem.entered hold hentered
      exact ⟨hcounters ▸ hcounter, mem_advance_of_mem [] hmem⟩
  alone := hsystem.alone_advance hself hnone []
  own := by
    intro other record hlanded
    rcases System.mem_transcript_advance_iff.mp hlanded with hold | hnew
    · exact mem_advance_of_mem [] (hsystem.own other record hold)
    · simp at hnew

theorem advance_entered (hsystem : Consistent codec system)
    (hself : system.sessions[session]? = some self)
    (hsink : next.sink = self.sink) {id : AuditEventId}
    (hcounter : system.shared.counters[self.sink]? =
      some ⟨id.instanceId, id.sequence.toNat, false⟩)
    (hcounters : after.counters = system.shared.counters.set self.sink
      ⟨id.instanceId, id.sequence.toNat + 1, true⟩)
    (hfile : after.file = system.shared.file)
    (hentered : next.phase.entered? = some id) :
    Consistent codec (system.advance session after next [.entered id]) where
  ordered := by
    rw [eventsOf_advance]
    rw [System.advance, hcounters]
    refine hsystem.ordered.advance hcounter ?_
      (hsystem.ordered.served hcounter).enter
    exact if_pos rfl
  holds := by
    have hrecords : landedRecords (eventsOf system ++ [.entered id]) =
        landedRecords (eventsOf system) := by
      simp [landedRecords, landedRecord?]
    rw [eventsOf_advance, hrecords]
    exact hfile ▸ hsystem.holds
  entered := by
    intro other call found hcall hfound
    have hlt := (List.getElem?_eq_some_iff.mp hcounter).1
    rcases (System.getElem?_advance_eq_some_iff hself).mp hcall with
      ⟨hother, hnew⟩ | ⟨-, hold⟩
    · rw [hnew, hentered, Option.some.injEq] at hfound
      constructor
      · rw [System.advance, hcounters, hnew, hsink, ← hfound,
          List.getElem?_set_self hlt]
      · rw [System.mem_transcript_advance_iff, hother, ← hfound]
        exact Or.inr ⟨rfl, List.mem_singleton_self _⟩
    · obtain ⟨hothers, hmem⟩ := hsystem.entered hold hfound
      have hne : self.sink ≠ call.sink := by
        intro heq
        rw [← heq, hcounter] at hothers
        simp at hothers
      constructor
      · rw [System.advance, hcounters, List.getElem?_set_ne hne]
        exact hothers
      · exact mem_advance_of_mem _ hmem
  alone := by
    -- nobody else can hold a number of this sink, because it was not locked
    have hfree : ∀ {other : ℕ} {call : Appender},
        system.sessions[other]? = some call →
        call.phase.entered?.isSome → call.sink ≠ self.sink := by
      intro other call hcall hheld heq
      obtain ⟨found, hfound⟩ := Option.isSome_iff_exists.mp hheld
      have hothers := (hsystem.entered hcall hfound).1
      rw [heq, hcounter] at hothers
      simp at hothers
    intro first second call another hcall hanother hheld hothers heq
    rcases (System.getElem?_advance_eq_some_iff hself).mp hcall with
        ⟨hfirst, hnew⟩ | ⟨-, hold⟩ <;>
      rcases (System.getElem?_advance_eq_some_iff hself).mp hanother with
        ⟨hsecond, hnew'⟩ | ⟨-, hold'⟩
    · rw [hfirst, hsecond]
    · rw [hnew, hsink] at heq
      exact (hfree hold' hothers heq.symm).elim
    · rw [hnew', hsink] at heq
      exact (hfree hold hheld heq).elim
    · exact hsystem.alone hold hold' hheld hothers heq
  own := by
    intro other record hlanded
    rcases System.mem_transcript_advance_iff.mp hlanded with hold | hnew
    · exact mem_advance_of_mem _ (hsystem.own other record hold)
    · simp at hnew

theorem advance_settled (hsystem : Consistent codec system)
    (hself : system.sessions[session]? = some self) {id : AuditEventId}
    (hid : self.phase.entered? = some id)
    (hcounters : after.counters = system.shared.counters.set self.sink
      ⟨id.instanceId, id.sequence.toNat + 1, false⟩)
    {recordedAt : WallClockTime} {fate : WriteFate} (hwhole : fate.Whole)
    (hfile : after.file = (AuditFileSink.writeLine codec system.shared.file
      (self.entry.record id recordedAt) fate).1)
    (hnone : next.phase.entered? = none) :
    Consistent codec (system.advance session after next
      [settlement codec (self.entry.record id recordedAt) fate]) := by
  obtain ⟨hcounter, hmem⟩ := hsystem.entered hself hid
  have hrecord : (self.entry.record id recordedAt).eventId = id := rfl
  have hsettled := settlement_cases codec system.shared.file
    (self.entry.record id recordedAt) hwhole
  have hothers : ∀ {other : ℕ} {call : Appender} {found : AuditEventId},
      other ≠ session →
      system.sessions[other]? = some call →
      call.phase.entered? = some found → self.sink ≠ call.sink := by
    intro other call found hne hcall hfound heq
    apply hne
    exact hsystem.alone hcall hself (Option.isSome_of_eq_some hfound)
      (Option.isSome_of_eq_some hid) heq.symm
  constructor
  case ordered =>
    rw [eventsOf_advance, System.advance, hcounters]
    rcases hsettled with ⟨text, -, hlanded, -⟩ | ⟨hlost, -⟩
    · rw [hlanded]
      refine hsystem.ordered.advance hcounter ?_
        ((hsystem.ordered.served hcounter).land rfl)
      exact if_pos rfl
    · rw [hlost]
      refine hsystem.ordered.advance hcounter ?_
        ((hsystem.ordered.served hcounter).lose rfl)
      exact if_pos rfl
  case holds =>
    rw [eventsOf_advance, System.advance, hfile]
    rcases hsettled with
      ⟨text, hprint, hlanded, hwritten⟩ | ⟨hlost, hwritten⟩
    · have hrecords : landedRecords (eventsOf system ++
          [.landed (self.entry.record id recordedAt)]) =
            landedRecords (eventsOf system) ++
              [self.entry.record id recordedAt] := by
        simp [landedRecords, landedRecord?]
      rw [hlanded, hwritten, hrecords]
      exact hsystem.holds.append hprint
    · have hrecords : landedRecords (eventsOf system ++ [.lost id]) =
          landedRecords (eventsOf system) := by
        simp [landedRecords, landedRecord?]
      rw [hlost, hwritten, hrecord, hrecords]
      exact hsystem.holds
  case entered =>
    intro other call found hcall hfound
    rcases (System.getElem?_advance_eq_some_iff hself).mp hcall with
      ⟨-, hnew⟩ | ⟨hne, hold⟩
    · rw [hnew, hnone] at hfound
      contradiction
    · obtain ⟨hheld, hentered⟩ := hsystem.entered hold hfound
      constructor
      · rw [System.advance, hcounters,
          List.getElem?_set_ne (hothers hne hold hfound)]
        exact hheld
      · exact mem_advance_of_mem _ hentered
  case alone => exact hsystem.alone_advance hself hnone _
  case own =>
    intro other record hmember
    rcases System.mem_transcript_advance_iff.mp hmember with
      hold | ⟨hother, hnew⟩
    · exact mem_advance_of_mem _ (hsystem.own other record hold)
    · rw [List.mem_singleton] at hnew
      apply mem_advance_of_mem
      rcases hsettled with ⟨text, -, hlanded, -⟩ | ⟨hlost, -⟩
      · rw [hlanded, AppendEvent.landed.injEq] at hnew
        simp only at hother
        rw [hother, hnew, hrecord]
        exact hmem
      · rw [hlost] at hnew
        contradiction

theorem advance (hsystem : Consistent codec system) {action : AppendAction}
    {new : List AppendEvent}
    (hwhole : WritesWhole (.act session action))
    (hself : system.sessions[session]? = some self)
    (hact : Appender.act codec system.shared self action =
      some (after, next, new)) :
    Consistent codec (system.advance session after next new) := by
  obtain ⟨hsink, hcases⟩ := act_cases hact
  rcases hcases with ⟨hcounters, hfile, hnew, hnone⟩ |
    ⟨id, hcounter, hcounters, hfile, hnew, hentered⟩ |
    ⟨id, recordedAt, fate, counter, hid, hwrite, hcounter, hcounters, hfile,
      hnew, hnone⟩
  · rw [hnew]
    exact hsystem.advance_quiet hself hcounters hfile hnone
  · rw [hnew]
    exact hsystem.advance_entered hself hsink hcounter hcounters hfile
      hentered
  · rw [hnew]
    rw [(hsystem.entered hself hid).1, Option.some.injEq] at hcounter
    rw [← hcounter] at hcounters
    rw [hwrite] at hwhole
    exact hsystem.advance_settled hself hid hcounters hwhole hfile hnone

end Consistent

theorem consistent_of_run {instances : List IssuerInstanceId}
    (hdistinct : instances.Nodup)
    {actions :
      List (InterleavedSessions.Action (ℕ × AuditEntry) AppendAction)}
    (hwhole : ∀ action ∈ actions, WritesWhole action) {system : Appends}
    (hrun : execute (Appender.program codec).step
      (.initial (.opened instances)) actions = some system) :
    Consistent codec system := by
  apply Program.guarded_run_invariant
    (fun _ action => WritesWhole action) (Consistent codec) _ _
    (Consistent.initial hdistinct) _ hrun
  · intro system opening hsystem
    exact hsystem.enroll opening
  · intro system session action self after next new _ hsystem hguard hself
      hact
    exact hsystem.advance hguard hself hact
  · apply guarded_of_forall
    intro action haction _
    exact hwhole action haction

/-- Gap detection tells of every id what has become of it, in every
interleaving of appends whose lines land whole or not at all. -/
theorem classified_of_run (hfaithful : codec.Faithful)
    (instances : List IssuerInstanceId) (hdistinct : instances.Nodup)
    (actions :
      List (InterleavedSessions.Action (ℕ × AuditEntry) AppendAction))
    (hwhole : ∀ action ∈ actions, WritesWhole action) {system : Appends}
    (hrun : execute (Appender.program codec).step
      (.initial (.opened instances)) actions = some system) :
    ∃ scan, readLog codec system.shared.file = .ok scan ∧
      Classified (eventsOf system) scan ∧
      ∀ session record, (session, .landed record) ∈ system.transcript →
        (session, .entered record.eventId) ∈ system.transcript := by
  have hconsistent := consistent_of_run hdistinct hwhole hrun
  refine ⟨_, hconsistent.holds.readLog_eq hfaithful, ?_, hconsistent.own⟩
  exact hconsistent.ordered.allServed.classified rfl

/-- Two threads use one of two sinks; the first write is lost. -/
def overtakenAppends :
    List (InterleavedSessions.Action (ℕ × AuditEntry) AppendAction) :=
  [.start (0, sampleEntry), .start (0, sampleEntry),
    .act 0 (.now ⟨1, 0⟩), .act 1 (.now ⟨1, 0⟩), .act 1 .enter,
    .act 1 (.write (.failed 0 "no space left on device")), .act 0 .enter,
    .act 0 (.write .landed), .act 1 .finish, .act 0 .finish]

theorem classified_overtakenAppends :
    ∃ system,
      execute (Appender.program (sampleCodec ⟨"agent-1"⟩)).step
        (.initial (.opened [⟨"agent-1"⟩, ⟨"agent-2"⟩])) overtakenAppends =
          some system ∧
      eventsOf system =
        [.entered ⟨⟨"agent-1"⟩, 0⟩, .lost ⟨⟨"agent-1"⟩, 0⟩,
          .entered ⟨⟨"agent-1"⟩, 1⟩,
          .landed (sampleRecord ⟨"agent-1"⟩ 1)] ∧
      ∃ scan,
        readLog (sampleCodec ⟨"agent-1"⟩) system.shared.file = .ok scan ∧
        Classified (eventsOf system) scan ∧
        ∀ session record, (session, .landed record) ∈ system.transcript →
          (session, .entered record.eventId) ∈ system.transcript := by
  refine ⟨_, rfl, by decide +kernel,
    classified_of_run sampleCodec_faithful [⟨"agent-1"⟩, ⟨"agent-2"⟩]
      (by decide) overtakenAppends ?_ rfl⟩
  simp [overtakenAppends, WritesWhole, WriteFate.Whole]

end Eltanin.Audit
