import Eltanin.AuditGaps
import Mathlib.Data.Set.Card

/-!
# What a scan of the log reports

Line by line the reader is nearly exact: a document whose envelope is read as
well becomes a record, any other line which is not blank is reported once,
under its number.  But the file is taken as text before it is cut into lines,
and all the missing numbers are collected after it, so a single byte which is
not UTF-8, or a single high number, takes every line with it.
-/

namespace Eltanin.Audit

open Json Eltanin.Core TextLines

variable {codec : RecordCodec} {capacity : GapCapacity}

/-- The record in a line which is an envelope of the current version around a
record. -/
def document? (codec : RecordCodec) (line : List Char) :
    Option AuditRecord :=
  match codec.parseRecord line with
  | .ok document =>
      if document.version = domainSchemaVersion then some document.payload
      else none
  | .error _ => none

/-- The record which the reader keeps of a line. -/
def kept? (codec : RecordCodec) (line : List Char) : Option AuditRecord :=
  match readLine codec 1 line with
  | some (.ok record) => some record
  | _ => none

theorem readLine_eq_none_iff (lineNumber : ℕ) {line : List Char} :
    readLine codec lineNumber line = none ↔ IsBlank line := by
  unfold readLine
  by_cases hblank : IsBlank line
  · simp [hblank]
  · simp only [hblank, if_false, iff_false]
    split
    · simp
    · split
      · simp
      · split <;> simp

theorem readLine_eq_ok_iff (lineNumber : ℕ) {line : List Char}
    {record : AuditRecord} :
    readLine codec lineNumber line = some (.ok record) ↔
      kept? codec line = some record := by
  unfold kept? readLine
  by_cases hblank : IsBlank line
  · simp [hblank]
  · simp only [hblank, if_false]
    cases codec.parseValue line with
    | error reason => simp
    | ok envelope =>
        by_cases hversion : envelope.version = domainSchemaVersion
        · cases codec.parseRecord line <;> simp [hversion]
        · simp [hversion]

theorem kept?_eq_none_iff (lineNumber : ℕ) {line : List Char} :
    kept? codec line = none ↔
      ∀ record, readLine codec lineNumber line ≠ some (.ok record) := by
  rw [Option.eq_none_iff_forall_ne_some]
  apply forall_congr'
  intro record
  rw [ne_eq, ne_eq, readLine_eq_ok_iff]

theorem lineNumber_of_readLine {lineNumber : ℕ} {line : List Char}
    {unreadable : UnreadableLine}
    (hread : readLine codec lineNumber line = some (.error unreadable)) :
    unreadable.lineNumber = lineNumber := by
  unfold readLine at hread
  split at hread
  · contradiction
  split at hread
  · cases hread
    rfl
  split at hread
  · cases hread
    rfl
  split at hread
  · simp at hread
  · cases hread
    rfl

/-- A document is kept when, and only when, its envelope is read around an
arbitrary value too. -/
theorem kept?_eq_some_iff (hconsistent : codec.Consistent)
    {line : List Char} {record : AuditRecord} :
    kept? codec line = some record ↔
      document? codec line = some record ∧
        ∃ envelope, codec.parseValue line = .ok envelope := by
  rw [← readLine_eq_ok_iff 1]
  unfold readLine document?
  cases hvalue : codec.parseValue line with
  | error reason =>
      by_cases hblank : IsBlank line <;> simp [hblank]
  | ok envelope =>
      have hvisible : ¬IsBlank line := by
        rw [IsBlank, hconsistent.visible_parseValue hvalue]
        simp
      cases hrecord : codec.parseRecord line with
      | error reason =>
          by_cases hversion : envelope.version = domainSchemaVersion <;>
            simp [hvisible, hversion]
      | ok document =>
          have heq := hconsistent.version_eq hvalue hrecord
          by_cases hversion : envelope.version = domainSchemaVersion <;>
            simp [hvisible, hversion, heq]

/-- The id a line names: that of its document or, where there is none, what is
recovered from its envelope. -/
def eventId? (codec : RecordCodec) (line : List Char) :
    Option AuditEventId :=
  match document? codec line with
  | some record => some record.eventId
  | none =>
      match codec.parseValue line with
      | .ok envelope => recoverEventId envelope.payload
      | .error _ => none

/-- The id of a reading, whichever of the two lists it goes to. -/
def eventIdOf? : Option (Except UnreadableLine AuditRecord) →
    Option AuditEventId
  | none => none
  | some (.ok record) => some record.eventId
  | some (.error unreadable) => unreadable.eventId

theorem eventIdOf?_readLine (hconsistent : codec.Consistent)
    (lineNumber : ℕ) {line : List Char}
    (hkept : kept? codec line = document? codec line) :
    eventIdOf? (readLine codec lineNumber line) = eventId? codec line := by
  cases hdocument : document? codec line with
  | some record =>
      rw [hdocument] at hkept
      rw [(readLine_eq_ok_iff lineNumber).mpr hkept]
      simp [eventIdOf?, eventId?, hdocument]
  | none =>
      have hnot : ∀ record,
          readLine codec lineNumber line ≠ some (.ok record) :=
        (kept?_eq_none_iff lineNumber).mp (hkept.trans hdocument)
      unfold readLine at hnot ⊢
      simp only [eventId?, hdocument]
      cases hvalue : codec.parseValue line with
      | error reason =>
          by_cases hblank : IsBlank line <;> simp [hblank, eventIdOf?]
      | ok envelope =>
          have hvisible : ¬IsBlank line := by
            rw [IsBlank, hconsistent.visible_parseValue hvalue]
            simp
          simp only [hvalue, hvisible, if_false] at hnot ⊢
          by_cases hversion : envelope.version = domainSchemaVersion
          · cases hrecord : codec.parseRecord line with
            | error reason => simp [hversion, eventIdOf?]
            | ok document => simp [hversion, hrecord] at hnot
          · simp [hversion, eventIdOf?]

/-! ## Lines of the file -/

def documentOf (codec : RecordCodec) (line : List UInt8) :
    Option AuditRecord :=
  (decode? line).bind (document? codec)

def isBlankLine (line : List UInt8) : Bool :=
  (decode? line).any fun text => decide (IsBlank text)

/-- The numbers, counted from `start`, of the lines which are neither blank
nor documents. -/
def otherLines (codec : RecordCodec) (start : ℕ)
    (lines : List (List UInt8)) : List ℕ :=
  (lines.zipIdx start).filterMap fun numbered =>
    if documentOf codec numbered.1 = none ∧ isBlankLine numbered.1 = false
    then some numbered.2 else none

/-- The ids which the lines of the file name. -/
def namedIds (codec : RecordCodec) (contents : List UInt8) :
    List AuditEventId :=
  (byteLines contents).filterMap fun line =>
    (decode? line).bind (eventId? codec)

/-- The ids which no line names, below one of the same instance which a line
names. -/
def missingIds (codec : RecordCodec) (contents : List UInt8) :
    Set AuditEventId :=
  {id | id ∉ namedIds codec contents ∧
    ∃ other ∈ namedIds codec contents,
      other.instanceId = id.instanceId ∧ id.sequence < other.sequence}

theorem documentOf_encode (line : List Char) :
    documentOf codec (encode line) = document? codec line := by
  rw [documentOf, decode?_encode, Option.bind_some]

theorem isBlankLine_encode (line : List Char) :
    isBlankLine (encode line) = decide (IsBlank line) := by
  rw [isBlankLine, decode?_encode, Option.any_some]

theorem filterMap_documentOf_encode (lines : List (List Char)) :
    (lines.map encode).filterMap (documentOf codec) =
      lines.filterMap (document? codec) := by
  rw [List.filterMap_map]
  apply List.filterMap_congr
  intro line _
  exact documentOf_encode line

theorem namedIds_encode (text : List Char) :
    namedIds codec (encode text) =
      (textLines text).filterMap (eventId? codec) := by
  rw [namedIds, byteLines_encode, List.filterMap_map]
  apply List.filterMap_congr
  intro line _
  rw [Function.comp_apply, decode?_encode, Option.bind_some]

theorem readLines_records (index : ℕ) (lines : List (List Char)) :
    (readLines codec index lines).1 = lines.filterMap (kept? codec) := by
  induction lines generalizing index with
  | nil => rfl
  | cons line rest ih =>
      rw [List.filterMap_cons, ← ih (index + 1), readLines]
      cases hread : readLine codec (index + 1) line with
      | none =>
          have hnone : kept? codec line = none := by
            simp [kept?_eq_none_iff (index + 1), hread]
          simp only [hnone]
      | some reading =>
          cases reading with
          | ok record =>
              simp only [(readLine_eq_ok_iff (index + 1)).mp hread]
          | error unreadable =>
              have hnone : kept? codec line = none := by
                simp [kept?_eq_none_iff (index + 1), hread]
              simp only [hnone]

theorem readLines_lineNumbers (index : ℕ) {lines : List (List Char)}
    (hkept : ∀ line ∈ lines, kept? codec line = document? codec line) :
    (readLines codec index lines).2.map UnreadableLine.lineNumber =
      otherLines codec (index + 1) (lines.map encode) := by
  induction lines generalizing index with
  | nil => rfl
  | cons line rest ih =>
      rw [List.forall_mem_cons] at hkept
      have hrest := ih (index + 1) hkept.2
      simp only [otherLines] at hrest
      rw [otherLines, List.map_cons, List.zipIdx_cons, List.filterMap_cons,
        documentOf_encode, isBlankLine_encode, ← hrest, readLines]
      have hblank : readLine codec (index + 1) line = none ↔ IsBlank line :=
        readLine_eq_none_iff (index + 1)
      cases hread : readLine codec (index + 1) line with
      | none =>
          rw [hread, eq_self_iff_true, true_iff] at hblank
          simp [hblank]
      | some reading =>
          have hvisible : ¬IsBlank line := by
            rw [← hblank, hread]
            simp
          cases reading with
          | ok record =>
              have hdocument := (readLine_eq_ok_iff (index + 1)).mp hread
              rw [hkept.1] at hdocument
              simp [hdocument]
          | error unreadable =>
              have hnone : document? codec line = none := by
                simp [← hkept.1, kept?_eq_none_iff (index + 1), hread]
              simp [hnone, hvisible, lineNumber_of_readLine hread]

theorem mem_presentIds_readLines_iff (hconsistent : codec.Consistent)
    (index : ℕ) {lines : List (List Char)}
    (hkept : ∀ line ∈ lines, kept? codec line = document? codec line)
    {id : AuditEventId} :
    id ∈ presentIds (readLines codec index lines).1
        (readLines codec index lines).2 ↔
      id ∈ lines.filterMap (eventId? codec) := by
  induction lines generalizing index with
  | nil => simp [readLines, presentIds]
  | cons line rest ih =>
      rw [List.forall_mem_cons] at hkept
      have hrest := ih (index + 1) hkept.2
      have hhead := eventIdOf?_readLine hconsistent (index + 1) hkept.1
      have hsplit : id ∈ (line :: rest).filterMap (eventId? codec) ↔
          eventIdOf? (readLine codec (index + 1) line) = some id ∨
            id ∈ rest.filterMap (eventId? codec) := by
        simp [List.mem_filterMap, hhead]
      rw [hsplit, ← hrest, readLines]
      simp only [presentIds, List.mem_append, List.mem_map,
        List.mem_filterMap]
      cases readLine codec (index + 1) line with
      | none => simp [eventIdOf?]
      | some reading =>
          cases reading with
          | ok record => simp [eventIdOf?, or_assoc]
          | error unreadable => simp [eventIdOf?, or_left_comm]

/-! ## Files which hide nothing -/

/-- The reader returns, every document is among its records in file order,
and every other line which is not blank is reported once under its number. -/
def HidesNothing (capacity : GapCapacity) (codec : RecordCodec)
    (contents : List UInt8) : Prop :=
  ∃ scan, readLogWithin capacity codec contents = .returned (.ok scan) ∧
    scan.records = (byteLines contents).filterMap (documentOf codec) ∧
    scan.unreadable.map UnreadableLine.lineNumber =
      otherLines codec 1 (byteLines contents)

/-- The file is text, every document in it has an envelope which is read
around an arbitrary value as well, and there is room for the missing ids. -/
structure Legible (capacity : GapCapacity) (codec : RecordCodec)
    (contents : List UInt8) : Prop where
  utf8 : ByteArray.IsValidUTF8 contents.toByteArray
  envelopes : ∀ line ∈ byteLines contents, ∀ text,
    decode? line = some text → document? codec text ≠ none →
      ∃ envelope, codec.parseValue text = .ok envelope
  room : (missingIds codec contents).ncard ≤ capacity.ids

theorem length_filterMap_le_of_le {α β : Type*} {kept all : α → Option β}
    {items : List α}
    (hle : ∀ item ∈ items, ∀ value,
      kept item = some value → all item = some value) :
    (items.filterMap kept).length ≤ (items.filterMap all).length := by
  induction items with
  | nil => rfl
  | cons item rest ih =>
      rw [List.forall_mem_cons] at hle
      have hrest := ih hle.2
      rw [List.filterMap_cons, List.filterMap_cons]
      cases hkept : kept item with
      | some value => simpa [hle.1 value hkept] using hrest
      | none => cases all item <;> simp <;> omega

theorem filterMap_eq_iff_of_le {α β : Type*} {kept all : α → Option β}
    {items : List α}
    (hle : ∀ item ∈ items, ∀ value,
      kept item = some value → all item = some value) :
    items.filterMap kept = items.filterMap all ↔
      ∀ item ∈ items, kept item = all item := by
  induction items with
  | nil => simp
  | cons item rest ih =>
      rw [List.forall_mem_cons] at hle
      rw [List.filterMap_cons, List.filterMap_cons, List.forall_mem_cons,
        ← ih hle.2]
      cases hkept : kept item with
      | some value => simp [hle.1 value hkept]
      | none =>
          cases hall : all item with
          | none => simp
          | some value =>
              simp only [reduceCtorEq, false_and, iff_false]
              intro heq
              have hlength := congrArg List.length heq
              rw [List.length_cons] at hlength
              have hshort := length_filterMap_le_of_le hle.2
              omega

theorem missingIds_encode (hconsistent : codec.Consistent)
    {text : List Char}
    (hkept : ∀ line ∈ textLines text,
      kept? codec line = document? codec line) :
    missingIds codec (encode text) =
      ↑(detectGaps (readLines codec 0 (textLines text)).1
        (readLines codec 0 (textLines text)).2).toFinset := by
  ext id
  rw [List.coe_toFinset, Set.mem_ofPred_eq, mem_detectGaps_iff]
  simp only [missingIds, Set.mem_ofPred_eq, namedIds_encode,
    mem_presentIds_readLines_iff hconsistent 0 hkept]

theorem ncard_missingIds_encode (hconsistent : codec.Consistent)
    {text : List Char}
    (hkept : ∀ line ∈ textLines text,
      kept? codec line = document? codec line) :
    (missingIds codec (encode text)).ncard =
      (detectGaps (readLines codec 0 (textLines text)).1
        (readLines codec 0 (textLines text)).2).length := by
  rw [missingIds_encode hconsistent hkept, Set.ncard_coe_finset,
    List.toFinset_card_of_nodup nodup_detectGaps]

theorem kept?_eq_document?_iff (hconsistent : codec.Consistent)
    {line : List Char} :
    kept? codec line = document? codec line ↔
      (document? codec line ≠ none →
        ∃ envelope, codec.parseValue line = .ok envelope) := by
  constructor
  · intro hkept hdocument
    obtain ⟨record, hrecord⟩ := Option.ne_none_iff_exists'.mp hdocument
    exact ((kept?_eq_some_iff hconsistent).mp (hkept.trans hrecord)).2
  · intro henvelope
    cases hdocument : document? codec line with
    | some record =>
        exact (kept?_eq_some_iff hconsistent).mpr
          ⟨hdocument, henvelope (by simp [hdocument])⟩
    | none =>
        rw [Option.eq_none_iff_forall_ne_some]
        intro record hkept
        have hrecord := ((kept?_eq_some_iff hconsistent).mp hkept).1
        rw [hdocument] at hrecord
        contradiction

theorem hidesNothing_encode_iff (hconsistent : codec.Consistent)
    (text : List Char) :
    HidesNothing capacity codec (encode text) ↔
      (∀ line ∈ textLines text, kept? codec line = document? codec line) ∧
        (missingIds codec (encode text)).ncard ≤ capacity.ids := by
  have hall : (∀ line ∈ textLines text,
      kept? codec line = document? codec line) ↔
        (textLines text).filterMap (kept? codec) =
          (textLines text).filterMap (document? codec) := by
    rw [filterMap_eq_iff_of_le]
    intro line _ record hrecord
    exact ((kept?_eq_some_iff hconsistent).mp hrecord).1
  simp only [HidesNothing, readLogWithin_eq_ok_iff, readLog,
    decode?_encode, Except.ok.injEq, byteLines_encode,
    filterMap_documentOf_encode]
  constructor
  · rintro ⟨scan, ⟨rfl, hroom⟩, hrecords, -⟩
    rw [readLines_records] at hrecords
    have hkept := hall.mpr hrecords
    refine ⟨hkept, ?_⟩
    rw [ncard_missingIds_encode hconsistent hkept]
    exact hroom
  · rintro ⟨hkept, hroom⟩
    rw [ncard_missingIds_encode hconsistent hkept] at hroom
    refine ⟨_, ⟨rfl, hroom⟩, ?_, readLines_lineNumbers 0 hkept⟩
    rw [readLines_records]
    exact hall.mp hkept

theorem exists_text_of_hidesNothing {contents : List UInt8}
    (hhides : HidesNothing capacity codec contents) :
    ∃ text, contents = encode text := by
  obtain ⟨scan, hread, -⟩ := hhides
  have hscan := (readLogWithin_eq_ok_iff.mp hread).1
  unfold readLog at hscan
  split at hscan
  · contradiction
  next text hdecode => exact ⟨text, decode?_eq_some_iff.mp hdecode⟩

/-- The ids below a named one are missing, those apart which are named. -/
theorem sub_length_le_ncard_missingIds {contents : List UInt8}
    (hfinite : (missingIds codec contents).Finite) {id : AuditEventId}
    (hid : id ∈ namedIds codec contents) :
    id.sequence.toNat - (namedIds codec contents).length ≤
      (missingIds codec contents).ncard := by
  let below := (Finset.range id.sequence.toNat).image fun sequence =>
    (⟨id.instanceId, UInt64.ofNat sequence⟩ : AuditEventId)
  have hnumber : ∀ sequence ∈ Finset.range id.sequence.toNat,
      (UInt64.ofNat sequence).toNat = sequence := by
    intro sequence hsequence
    exact UInt64.toNat_ofNat_of_lt'
      (lt_trans (Finset.mem_range.mp hsequence) id.sequence.toNat_lt)
  have hcard : below.card = id.sequence.toNat := by
    rw [Finset.card_image_of_injOn, Finset.card_range]
    intro first hfirst second hsecond heq
    have hsame := (AuditEventId.mk.inj heq).2
    rw [← hnumber first hfirst, ← hnumber second hsecond, hsame]
  have hsub : ↑(below \ (namedIds codec contents).toFinset) ⊆
      missingIds codec contents := by
    intro other hother
    rw [Finset.mem_coe, Finset.mem_sdiff, List.mem_toFinset,
      Finset.mem_image] at hother
    obtain ⟨⟨sequence, hsequence, rfl⟩, hunnamed⟩ := hother
    refine ⟨hunnamed, id, hid, rfl, ?_⟩
    rw [UInt64.lt_iff_toNat_lt, hnumber sequence hsequence]
    exact Finset.mem_range.mp hsequence
  calc id.sequence.toNat - (namedIds codec contents).length
      ≤ below.card - (namedIds codec contents).toFinset.card := by
        rw [hcard]
        exact Nat.sub_le_sub_left (List.toFinset_card_le _) _
    _ ≤ (below \ (namedIds codec contents).toFinset).card :=
        Finset.le_card_sdiff _ _
    _ ≤ (missingIds codec contents).ncard := by
        rw [← Set.ncard_coe_finset]
        exact Set.ncard_le_ncard hsub hfinite

/-- Whatever the memory, a file in which nothing is hidden names no number
which is far above the count of its lines. -/
theorem sequence_lt_of_hidesNothing (hconsistent : codec.Consistent)
    {contents : List UInt8} (hhides : HidesNothing capacity codec contents)
    {id : AuditEventId} (hid : id ∈ namedIds codec contents) :
    id.sequence.toNat <
      9223372036854775808 + (namedIds codec contents).length := by
  obtain ⟨text, rfl⟩ := exists_text_of_hidesNothing hhides
  have hkept := (hidesNothing_encode_iff hconsistent text).mp hhides
  have hfinite : (missingIds codec (encode text)).Finite := by
    rw [missingIds_encode hconsistent hkept.1]
    exact Finset.finite_toSet _
  have hcount := sub_length_le_ncard_missingIds hfinite hid
  have hroom := hkept.2
  have hrange := capacity.inRange
  omega

/-! ## Lines which the sink has written -/

theorem document?_print (hfaithful : codec.Faithful) {record : AuditRecord}
    {text : List Char} (hprint : codec.print (.current record) = .ok text) :
    document? codec text = some record := by
  simp [document?, hfaithful.parseRecord_print hprint, Versioned.current]

theorem readLine_print (hfaithful : codec.Faithful) (lineNumber : ℕ)
    {record : AuditRecord} {text : List Char}
    (hprint : codec.print (.current record) = .ok text) :
    readLine codec lineNumber text = some (.ok record) := by
  obtain ⟨value, hvalue⟩ := hfaithful.parseValue_print hprint
  have hvisible : ¬IsBlank text := by
    rw [IsBlank, hfaithful.visible_print hprint]
    simp
  simp [readLine, hvisible, hvalue, hfaithful.parseRecord_print hprint,
    Versioned.current]

theorem kept?_print (hfaithful : codec.Faithful) {record : AuditRecord}
    {text : List Char} (hprint : codec.print (.current record) = .ok text) :
    kept? codec text = some record :=
  (readLine_eq_ok_iff 1).mp (readLine_print hfaithful 1 hprint)

/-! ## Samples of lines -/

def sampleEntry : AuditEntry where
  operation := .agentStatus
  requested := .agentStatus
  peer :=
    { credential := ⟨4242, 1000, 1000⟩
      consistency := .consistent
      observed :=
        { workload :=
            { pid := 4242
              processStart := .unsupported
              uid := .unsupported
              gid := .unsupported
              executablePath := .unsupported
              executableHash := .unsupported
              ancestry := [] }
          cgroupPath := .unsupported
          namespaceHint := .unsupported
          containerHint := .unsupported
          sessionOrigin := .unsupported } }
  outcome := .statusReported
  response := .status ⟨1⟩

def sampleRecord (instanceId : IssuerInstanceId) (sequence : UInt64) :
    AuditRecord :=
  sampleEntry.record ⟨instanceId, sequence⟩ ⟨1, 0⟩

def sampleUnsupported : JsonValue :=
  .object [("state", .string "unsupported")]

def samplePayload (instanceId : IssuerInstanceId) (sequence : UInt64) :
    JsonValue :=
  .object
    [("event_id", .object
      [("instance", .string instanceId.tag),
        ("sequence", .number (.posInt sequence))]),
     ("recorded_at", .object
      [("unix_secs", .number (.posInt 1)), ("nanos", .number (.posInt 0))]),
     ("operation", .string "agent_status"),
     ("requested", .object [("op", .string "agent_status")]),
     ("peer", .object
      [("credential", .object
        [("pid", .number (.posInt 4242)),
          ("effective_uid", .number (.posInt 1000)),
          ("effective_gid", .number (.posInt 1000))]),
       ("consistency", .object [("consistency", .string "consistent")]),
       ("observed", .object
        [("workload", .object
          [("pid", .number (.posInt 4242)),
            ("process_start", sampleUnsupported),
            ("uid", sampleUnsupported), ("gid", sampleUnsupported),
            ("executable_path", sampleUnsupported),
            ("executable_hash", sampleUnsupported),
            ("ancestry", .array [])]),
         ("cgroup_path", sampleUnsupported),
         ("namespace_hint", sampleUnsupported),
         ("container_hint", sampleUnsupported),
         ("session_origin", sampleUnsupported)])]),
     ("outcome", .object [("outcome", .string "status_reported")]),
     ("response", .object
      [("result", .string "status"),
        ("status", .object [("protocol_version", .number (.posInt 1))])])]

def sampleText (instanceId : IssuerInstanceId) (sequence : UInt64) :
    List Char :=
  let unsupported := "\x7b\"state\":\"unsupported\"\x7d".toList
  "\x7b\"version\":1,\"payload\":\x7b".toList ++
    "\"event_id\":\x7b\"instance\":\"".toList ++ instanceId.tag.toList ++
    "\",\"sequence\":".toList ++ Nat.toDigits 10 sequence.toNat ++
    "\x7d,\"recorded_at\":\x7b\"unix_secs\":1,\"nanos\":0\x7d,".toList ++
    "\"operation\":\"agent_status\",".toList ++
    "\"requested\":\x7b\"op\":\"agent_status\"\x7d,".toList ++
    "\"peer\":\x7b\"credential\":\x7b\"pid\":4242,".toList ++
    "\"effective_uid\":1000,\"effective_gid\":1000\x7d,".toList ++
    "\"consistency\":\x7b\"consistency\":\"consistent\"\x7d,".toList ++
    "\"observed\":\x7b\"workload\":\x7b\"pid\":4242,".toList ++
    "\"process_start\":".toList ++ unsupported ++
    ",\"uid\":".toList ++ unsupported ++
    ",\"gid\":".toList ++ unsupported ++
    ",\"executable_path\":".toList ++ unsupported ++
    ",\"executable_hash\":".toList ++ unsupported ++
    ",\"ancestry\":[]\x7d,\"cgroup_path\":".toList ++ unsupported ++
    ",\"namespace_hint\":".toList ++ unsupported ++
    ",\"container_hint\":".toList ++ unsupported ++
    ",\"session_origin\":".toList ++ unsupported ++
    "\x7d\x7d,\"outcome\":\x7b\"outcome\":\"status_reported\"\x7d,".toList ++
    "\"response\":\x7b\"result\":\"status\",".toList ++
    "\"status\":\x7b\"protocol_version\":1\x7d\x7d\x7d\x7d".toList

/-- A codec for the first two status records of one instance. -/
def sampleCodec (instanceId : IssuerInstanceId) : RecordCodec :=
  .ofTable
    [⟨sampleRecord instanceId 0, samplePayload instanceId 0,
        sampleText instanceId 0⟩,
      ⟨sampleRecord instanceId 1, samplePayload instanceId 1,
        sampleText instanceId 1⟩]

theorem sampleCodec_faithful : (sampleCodec ⟨"agent-1"⟩).Faithful :=
  RecordCodec.faithful_ofTable (by decide +kernel) (by decide +kernel)

theorem sampleCodec_consistent : (sampleCodec ⟨"agent-1"⟩).Consistent :=
  RecordCodec.consistent_ofTable (by decide +kernel)

/-! ## Files which hide a line -/

/-- One bad line never hides the rest of the log exactly when every line is
UTF-8, the reader of envelopes takes every document, and the numbers which the
lines leave out can be collected. -/
theorem readLog_hidesNothing_iff (hconsistent : codec.Consistent)
    (capacity : GapCapacity) (contents : List UInt8) :
    HidesNothing capacity codec contents ↔
      Legible capacity codec contents := by
  constructor
  · intro hhides
    obtain ⟨text, hencode⟩ := exists_text_of_hidesNothing hhides
    rw [hencode, hidesNothing_encode_iff hconsistent] at hhides
    constructor
    case utf8 =>
      rw [← decode?_isSome_iff, hencode, decode?_encode]
      rfl
    case envelopes =>
      intro bytes hbytes line hline
      rw [hencode, byteLines_encode, List.mem_map] at hbytes
      obtain ⟨original, horiginal, rfl⟩ := hbytes
      rw [decode?_encode, Option.some.injEq] at hline
      rw [← hline]
      exact (kept?_eq_document?_iff hconsistent).mp
        (hhides.1 original horiginal)
    case room =>
      rw [hencode]
      exact hhides.2
  · intro hlegible
    obtain ⟨text, hdecode⟩ := Option.isSome_iff_exists.mp
      (decode?_isSome_iff.mpr hlegible.utf8)
    have hencode := decode?_eq_some_iff.mp hdecode
    have hroom := hlegible.room
    have henvelopes := hlegible.envelopes
    rw [hencode] at hroom henvelopes ⊢
    rw [hidesNothing_encode_iff hconsistent]
    refine ⟨?_, hroom⟩
    intro line hline
    rw [kept?_eq_document?_iff hconsistent]
    apply henvelopes (encode line) _ line (decode?_encode line)
    rw [byteLines_encode]
    exact List.mem_map_of_mem hline

theorem envelope_of_document_ofTable {table : List Document}
    {line : List Char} {record : AuditRecord}
    (hdocument : document? (.ofTable table) line = some record) :
    ∃ envelope, (RecordCodec.ofTable table).parseValue line =
      .ok envelope := by
  unfold document? at hdocument
  split at hdocument
  next document hrecord => exact RecordCodec.parseValue_ofTable hrecord
  next => contradiction

/-- A record with number 1, a blank line and a line which is broken off: only
the id before the record is missing. -/
def sampleContents : List Char :=
  sampleText ⟨"agent-1"⟩ 1 ++ "\n \n\x7b\"version\":".toList

theorem ncard_missingIds_sampleContents :
    (missingIds (sampleCodec ⟨"agent-1"⟩) (encode sampleContents)).ncard =
      1 := by
  have hnamed : namedIds (sampleCodec ⟨"agent-1"⟩) (encode sampleContents) =
      [⟨⟨"agent-1"⟩, 1⟩] := by
    rw [namedIds_encode]
    decide +kernel
  rw [Set.ncard_eq_one]
  refine ⟨⟨⟨"agent-1"⟩, 0⟩, Set.ext fun id => ?_⟩
  obtain ⟨instanceId, sequence⟩ := id
  simp only [missingIds, hnamed, Set.mem_ofPred_eq, List.mem_singleton,
    exists_eq_left, Set.mem_singleton_iff, AuditEventId.mk.injEq]
  constructor
  · rintro ⟨-, hinstance, hlt⟩
    refine ⟨hinstance.symm, ?_⟩
    grind
  · rintro ⟨rfl, rfl⟩
    exact ⟨by simp, rfl, by decide⟩

theorem hidesNothing_sampleContents :
    HidesNothing ⟨1, by decide⟩ (sampleCodec ⟨"agent-1"⟩)
        (encode sampleContents) ∧
      ¬HidesNothing ⟨0, by decide⟩ (sampleCodec ⟨"agent-1"⟩)
        (encode sampleContents) := by
  constructor
  · apply (readLog_hidesNothing_iff sampleCodec_consistent _ _).mpr
    constructor
    case utf8 =>
      rw [← decode?_isSome_iff, decode?_encode]
      rfl
    case envelopes =>
      intro bytes _ line _ hdocument
      obtain ⟨record, hrecord⟩ := Option.ne_none_iff_exists'.mp hdocument
      exact envelope_of_document_ofTable hrecord
    case room => rw [ncard_missingIds_sampleContents]
  · intro hhides
    have hroom := ((readLog_hidesNothing_iff sampleCodec_consistent _ _).mp
      hhides).room
    rw [ncard_missingIds_sampleContents] at hroom
    simp at hroom

/-- The first line is a document, but a byte which is in no encoding follows
it, and nothing is read. -/
theorem not_hidesNothing_of_invalid_byte :
    documentOf (sampleCodec ⟨"agent-1"⟩)
        (encode (sampleText ⟨"agent-1"⟩ 0)) =
      some (sampleRecord ⟨"agent-1"⟩ 0) ∧
    ∀ capacity, ¬HidesNothing capacity (sampleCodec ⟨"agent-1"⟩)
      (encode (sampleText ⟨"agent-1"⟩ 0 ++ ['\n']) ++ [255]) := by
  constructor
  · have hprint : (sampleCodec ⟨"agent-1"⟩).print
        (.current (sampleRecord ⟨"agent-1"⟩ 0)) =
          .ok (sampleText ⟨"agent-1"⟩ 0) := by
      simp [sampleCodec, RecordCodec.ofTable, Versioned.current]
    rw [documentOf_encode]
    exact document?_print sampleCodec_faithful hprint
  · have hmem : (255 : UInt8) ∈
        encode (sampleText ⟨"agent-1"⟩ 0 ++ ['\n']) ++ [255] :=
      List.mem_append_right _ (List.mem_singleton_self _)
    intro capacity hhides
    obtain ⟨text, hencode⟩ := exists_text_of_hidesNothing hhides
    have hnone := decode?_eq_none_of_mem hmem (by decide)
    rw [hencode, decode?_encode] at hnone
    exact Option.some_ne_none _ hnone

end Eltanin.Audit
