import Eltanin.AuditScan
import Eltanin.PartialExecution

/-!
# Acknowledged records

Calls of `append` one after another.  A write which fails partway leaves a
fragment without a newline, and the next line is glued to it: `append` returns
its id, and the reader finds neither record.  As long as no acknowledged line
is glued to a fragment and no fragment ends inside a character, everything
which was acknowledged can be read.
-/

namespace Eltanin.Audit

open Eltanin.Core TextLines PartialExecution

/-- One call, with what the clock shows and how the writer treats the line. -/
structure Append where
  entry : AuditEntry
  recordedAt : WallClockTime
  fate : WriteFate

/-- A sink, its file, and the records whose ids have been returned. -/
structure Appending where
  sink : AuditFileSink
  file : List UInt8
  acknowledged : List AuditRecord

def acknowledgedBy (call : Append) :
    Completion (Except AuditSinkError AuditEventId) → List AuditRecord
  | .returned (.ok eventId) => [call.entry.record eventId call.recordedAt]
  | .returned (.error _) => []
  | .panicked => []

namespace Appending

def initial (instanceId : IssuerInstanceId) : Appending :=
  ⟨.fromWriter instanceId, [], []⟩

def step (codec : RecordCodec) (state : Appending) (call : Append) :
    Option Appending :=
  let appended := state.sink.append codec state.file call.entry
    call.recordedAt call.fate
  some
    { sink := appended.1
      file := appended.2.1
      acknowledged :=
        state.acknowledged ++ acknowledgedBy call appended.2.2 }

/-- Every acknowledged record can be read, and its id is found. -/
def Readable (codec : RecordCodec) (state : Appending) : Prop :=
  ∀ record ∈ state.acknowledged, ∃ scan,
    readLog codec state.file = .ok scan ∧ record ∈ scan.records ∧
      ∃ found, select scan (.event record.eventId) = .found [found] ∧
        found.eventId = record.eventId

end Appending

/-! ## Calls which keep the log in order -/

def AtLineStart (file : List UInt8) : Prop :=
  file = [] ∨ file.getLast? = some 10

def Append.recordIn (call : Append) (sink : AuditFileSink) : AuditRecord :=
  call.entry.record ⟨sink.instanceId, sink.nextSequence⟩ call.recordedAt

/-- A line which is acknowledged starts a line of the file, and a fragment
which is left ends between two characters. -/
def KeepsOrder (codec : RecordCodec) (state : Appending) (call : Append) :
    Prop :=
  ∀ text, codec.print (.current (call.recordIn state.sink)) = .ok text →
    match call.fate with
    | .landed => AtLineStart state.file
    | .unflushed _ => True
    | .failed written _ =>
        ByteArray.IsValidUTF8
          ((encode (text ++ ['\n'])).dropLast.take written).toByteArray

namespace AuditFileSink

theorem append_cases (codec : RecordCodec) (self : AuditFileSink)
    (file : List UInt8) (entry : AuditEntry) (recordedAt : WallClockTime)
    (fate : WriteFate) :
    (self.append codec file entry recordedAt fate).2 = (file, .panicked) ∨
      (∃ error, (self.append codec file entry recordedAt fate).2 =
        (file, .returned (.error error))) ∨
      ∃ eventId text,
        eventId = ⟨self.instanceId, self.nextSequence⟩ ∧
        codec.print (.current (entry.record eventId recordedAt)) =
          .ok text ∧
        (self.append codec file entry recordedAt fate).2 =
          match fate with
          | .landed =>
              (file ++ encode (text ++ ['\n']), .returned (.ok eventId))
          | .unflushed reason =>
              (file ++ encode (text ++ ['\n']),
                .returned (.error (.io reason)))
          | .failed written reason =>
              (file ++ (encode (text ++ ['\n'])).dropLast.take written,
                .returned (.error (.io reason))) := by
  unfold append reserve
  by_cases hlast : self.nextSequence.toNat + 1 < UInt64.size
  · simp only [hlast, if_true]
    cases hprint : codec.print (.current (entry.record
        ⟨self.instanceId, self.nextSequence⟩ recordedAt)) with
    | error reason =>
        right
        left
        exact ⟨.serialize reason, by simp [writeLine, hprint, finish]⟩
    | ok text =>
        right
        right
        refine ⟨_, text, rfl, hprint, ?_⟩
        cases fate <;> simp [writeLine, hprint, finish]
  · left
    simp [hlast]

end AuditFileSink

/-! ## The lines of the file and what is left of others -/

/-- The file is made of whole lines and a rest without a newline, and every
acknowledged record is a line of its own. -/
structure Laid (codec : RecordCodec) (file : List UInt8)
    (acknowledged : List AuditRecord) (whole : List (List Char))
    (rest : List Char) : Prop where
  file_eq : file = encode (whole.flatMap (fun line => line ++ ['\n']) ++ rest)
  whole_plain : ∀ line ∈ whole, '\n' ∉ line ∧ '\r' ∉ line
  rest_plain : '\n' ∉ rest ∧ '\r' ∉ rest
  printed : ∀ record ∈ acknowledged, ∃ line ∈ whole,
    codec.print (.current record) = .ok line

namespace Laid

variable {codec : RecordCodec} {file : List UInt8}
  {acknowledged : List AuditRecord} {whole : List (List Char)}
  {rest text : List Char}

theorem empty : Laid codec [] [] [] [] where
  file_eq := rfl
  whole_plain := by simp
  rest_plain := by simp
  printed := by simp

theorem rest_eq_nil (hlaid : Laid codec file acknowledged whole rest)
    (hstart : AtLineStart file) : rest = [] := by
  have hnewline : UInt8.ofNat '\n'.toNat = 10 := by decide
  have hnot : (10 : UInt8) ∉ encode rest := by
    rw [← hnewline, mem_encode_iff (by decide)]
    exact hlaid.rest_plain.1
  cases rest with
  | nil => rfl
  | cons c rest =>
      have hne : encode (c :: rest) ≠ [] := by
        simp [encode_cons, String.utf8EncodeChar_ne_nil]
      have hfile := hlaid.file_eq
      rw [encode_append] at hfile
      rcases hstart with hempty | hlast
      · rw [hempty] at hfile
        exact (hne (List.append_eq_nil_iff.mp hfile.symm).2).elim
      · rw [hfile, List.getLast?_append_of_ne_nil _ hne] at hlast
        exact (hnot (List.mem_of_getLast? hlast)).elim

theorem append_line (hlaid : Laid codec file acknowledged whole rest)
    (hplain : '\n' ∉ text ∧ '\r' ∉ text) :
    Laid codec (file ++ encode (text ++ ['\n'])) acknowledged
      (whole ++ [rest ++ text]) [] where
  file_eq := by
    rw [hlaid.file_eq, ← encode_append]
    simp
  whole_plain := by
    intro line hline
    rcases List.mem_append.mp hline with hold | hnew
    · exact hlaid.whole_plain line hold
    · rw [List.mem_singleton.mp hnew, List.mem_append, List.mem_append]
      have hrest := hlaid.rest_plain
      tauto
  rest_plain := by simp
  printed := by
    intro record hrecord
    obtain ⟨line, hline, hprint⟩ := hlaid.printed record hrecord
    exact ⟨line, List.mem_append_left _ hline, hprint⟩

theorem append_fragment (hlaid : Laid codec file acknowledged whole rest)
    (hplain : '\n' ∉ text ∧ '\r' ∉ text) :
    Laid codec (file ++ encode text) acknowledged whole (rest ++ text) where
  file_eq := by
    rw [hlaid.file_eq, ← encode_append, List.append_assoc]
  whole_plain := hlaid.whole_plain
  rest_plain := by
    rw [List.mem_append, List.mem_append]
    have hrest := hlaid.rest_plain
    tauto
  printed := hlaid.printed

theorem acknowledge (hlaid : Laid codec file acknowledged whole rest)
    {record : AuditRecord} {line : List Char} (hline : line ∈ whole)
    (hprint : codec.print (.current record) = .ok line) :
    Laid codec file (acknowledged ++ [record]) whole rest where
  file_eq := hlaid.file_eq
  whole_plain := hlaid.whole_plain
  rest_plain := hlaid.rest_plain
  printed := by
    intro other hother
    rcases List.mem_append.mp hother with hold | hnew
    · exact hlaid.printed other hold
    · rw [List.mem_singleton.mp hnew]
      exact ⟨line, hline, hprint⟩

theorem exists_scan (hlaid : Laid codec file acknowledged whole rest)
    (hfaithful : codec.Faithful) :
    ∃ scan, readLog codec file = .ok scan ∧
      ∀ record ∈ acknowledged, record ∈ scan.records := by
  rw [hlaid.file_eq]
  rw [readLog, decode?_encode]
  refine ⟨_, rfl, ?_⟩
  intro record hrecord
  obtain ⟨line, hline, hprint⟩ := hlaid.printed record hrecord
  have hlines : textLines
      (whole.flatMap (fun line => line ++ ['\n']) ++ rest) =
        whole.map id ++ textLines rest :=
    lines_flatMap_append hlaid.whole_plain
  rw [readLines_records, hlines, List.map_id]
  apply List.mem_filterMap.mpr
  exact ⟨line, List.mem_append_left _ hline, kept?_print hfaithful hprint⟩

end Laid

theorem select_event_eq_found {scan : LogScan} {record : AuditRecord}
    (hrecord : record ∈ scan.records) :
    ∃ found, select scan (.event record.eventId) = .found [found] ∧
      found ∈ scan.records ∧ found.eventId = record.eventId := by
  cases hfind : scan.records.find? fun other =>
      other.eventId = record.eventId with
  | none =>
      have hnot := List.find?_eq_none.mp hfind record hrecord
      simp at hnot
  | some found =>
      have hid := List.find?_some hfind
      rw [decide_eq_true_eq] at hid
      exact ⟨found, by simp only [select, hfind],
        List.mem_of_find?_eq_some hfind, hid⟩

/-! ## Runs -/

namespace Appending

variable {codec : RecordCodec} {state next : Appending} {call : Append}

def InOrder (codec : RecordCodec) (state : Appending) : Prop :=
  ∃ whole rest, Laid codec state.file state.acknowledged whole rest

theorem InOrder.readable (horder : InOrder codec state)
    (hfaithful : codec.Faithful) : Readable codec state := by
  obtain ⟨whole, rest, hlaid⟩ := horder
  obtain ⟨scan, hread, hrecords⟩ := hlaid.exists_scan hfaithful
  intro record hrecord
  have hmem := hrecords record hrecord
  obtain ⟨found, hselect, -, hid⟩ := select_event_eq_found hmem
  exact ⟨scan, hread, hmem, found, hselect, hid⟩

theorem fragment_plain {text : List Char} {written : ℕ}
    (hplain : '\n' ∉ text ∧ '\r' ∉ text)
    (hvalid : ByteArray.IsValidUTF8
      ((encode (text ++ ['\n'])).dropLast.take written).toByteArray) :
    ∃ piece, (encode (text ++ ['\n'])).dropLast.take written =
      encode piece ∧ '\n' ∉ piece ∧ '\r' ∉ piece := by
  rw [← decode?_isSome_iff, Option.isSome_iff_exists] at hvalid
  obtain ⟨piece, hpiece⟩ := hvalid
  rw [decode?_eq_some_iff] at hpiece
  have hencode : encode ['\n'] = [10] := by decide
  have hmem : ∀ d : Char, d.toNat ≤ 127 → d ∈ piece → d ∈ text := by
    intro d hd hin
    rw [← mem_encode_iff hd] at hin ⊢
    rw [← hpiece, encode_append, hencode, List.dropLast_concat] at hin
    exact List.mem_of_mem_take hin
  exact ⟨piece, hpiece, fun hin => hplain.1 (hmem _ (by decide) hin),
    fun hin => hplain.2 (hmem _ (by decide) hin)⟩

theorem InOrder.step (hfaithful : codec.Faithful)
    (horder : InOrder codec state) (hkeeps : KeepsOrder codec state call)
    (hstep : Appending.step codec state call = some next) :
    InOrder codec next := by
  obtain ⟨whole, rest, hlaid⟩ := horder
  rw [← Option.some.inj hstep]
  rcases AuditFileSink.append_cases codec state.sink state.file call.entry
      call.recordedAt call.fate with
    happend | ⟨error, happend⟩ | ⟨eventId, text, hid, hprint, happend⟩
  · refine ⟨whole, rest, ?_⟩
    simpa only [happend, acknowledgedBy, List.append_nil] using hlaid
  · refine ⟨whole, rest, ?_⟩
    simpa only [happend, acknowledgedBy, List.append_nil] using hlaid
  · have hplain := hfaithful.plain_print hprint
    have hkept := hkeeps text (by rw [Append.recordIn, ← hid, hprint])
    cases hfate : call.fate with
    | landed =>
        simp only [hfate] at happend hkept
        rw [hlaid.rest_eq_nil hkept] at hlaid
        refine ⟨whole ++ [[] ++ text], [], ?_⟩
        simp only [happend, acknowledgedBy]
        exact (hlaid.append_line hplain).acknowledge
          (List.mem_append_right _ (List.mem_singleton_self _)) hprint
    | unflushed reason =>
        simp only [hfate] at happend
        refine ⟨whole ++ [rest ++ text], [], ?_⟩
        simp only [happend, acknowledgedBy, List.append_nil]
        exact hlaid.append_line hplain
    | failed written reason =>
        simp only [hfate] at happend hkept
        obtain ⟨piece, hpiece, hpieceplain⟩ := fragment_plain hplain hkept
        refine ⟨whole, rest ++ piece, ?_⟩
        simp only [happend, acknowledgedBy, List.append_nil, hpiece]
        exact hlaid.append_fragment hpieceplain

end Appending

/-- In every run in which no acknowledged line is glued to a fragment and no
fragment ends inside a character, everything acknowledged can be read. -/
theorem readable_of_keepsOrder {codec : RecordCodec}
    (hfaithful : codec.Faithful) (instanceId : IssuerInstanceId)
    (calls : List Append) {final : Appending}
    (hkeeps : Guarded (KeepsOrder codec) (Appending.step codec)
      (.initial instanceId) calls)
    (hrun : execute (Appending.step codec) (.initial instanceId) calls =
      some final) :
    final.Readable codec := by
  have horder : Appending.InOrder codec final := by
    apply execute_guarded_invariant (KeepsOrder codec)
      (Appending.InOrder codec) _ ⟨[], [], Laid.empty⟩ hkeeps hrun
    intro state call next hstate hkept hstep
    exact hstate.step hfaithful hkept hstep
  exact horder.readable hfaithful

/-- The disk is full before the first line, and has room again for the
second. -/
def sparedCalls : List Append :=
  [⟨sampleEntry, ⟨1, 0⟩, .failed 0 "no space left on device"⟩,
    ⟨sampleEntry, ⟨1, 0⟩, .landed⟩]

theorem readable_after_empty_failure :
    ∃ final,
      execute (Appending.step (sampleCodec ⟨"agent-1"⟩))
        (.initial ⟨"agent-1"⟩) sparedCalls = some final ∧
      final.acknowledged = [sampleRecord ⟨"agent-1"⟩ 1] ∧
      final.Readable (sampleCodec ⟨"agent-1"⟩) := by
  refine ⟨_, rfl, by decide +kernel,
    readable_of_keepsOrder sampleCodec_faithful ⟨"agent-1"⟩ sparedCalls
      ?_ rfl⟩
  constructor
  · intro text _
    have hempty : (decode? []).isSome = true := rfl
    simpa only [List.take_zero] using decode?_isSome_iff.mp hempty
  · intro next hnext
    cases hnext
    constructor
    · intro text _
      exact Or.inl (by decide +kernel)
    · intro next _
      trivial

/-- The disk is full after one byte of the first line, and has room again for
the second. -/
def gluedCalls : List Append :=
  [⟨sampleEntry, ⟨1, 0⟩, .failed 1 "no space left on device"⟩,
    ⟨sampleEntry, ⟨1, 0⟩, .landed⟩]

theorem not_readable_of_glued_line :
    (sampleCodec ⟨"agent-1"⟩).Faithful ∧
      ∃ final,
        execute (Appending.step (sampleCodec ⟨"agent-1"⟩))
          (.initial ⟨"agent-1"⟩) gluedCalls = some final ∧
        sampleRecord ⟨"agent-1"⟩ 1 ∈ final.acknowledged ∧
        ¬final.Readable (sampleCodec ⟨"agent-1"⟩) := by
  refine ⟨sampleCodec_faithful, _, rfl, by decide +kernel, ?_⟩
  intro hreadable
  obtain ⟨scan, hread, hrecord, -⟩ :=
    hreadable (sampleRecord ⟨"agent-1"⟩ 1) (by decide +kernel)
  have hfile : [123] ++ encode (sampleText ⟨"agent-1"⟩ 1 ++ ['\n']) =
      encode (['\x7b'] ++ sampleText ⟨"agent-1"⟩ 1 ++ ['\n']) := by
    rw [List.append_assoc, encode_append ['\x7b']]
    rfl
  have hlines : (readLines (sampleCodec ⟨"agent-1"⟩) 0 (textLines
      (['\x7b'] ++ sampleText ⟨"agent-1"⟩ 1 ++ ['\n']))).1 = [] := by
    decide +kernel
  change readLog _ ([123] ++ encode _) = _ at hread
  rw [hfile, readLog, decode?_encode] at hread
  rw [← Except.ok.inj hread, hlines] at hrecord
  exact List.not_mem_nil hrecord

end Eltanin.Audit
