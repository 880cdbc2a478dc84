import Eltanin.LinuxProcess
import Eltanin.PeerConsistencyVerdict

/-!
# The name of a process and its identity

The last `)` of a stat file is the kernel's own, because only numbers and one
letter follow it, and no line of a status file but the first carries any of
the name.  What a name can do is make a file no text at all.
-/

namespace Eltanin.Linux

open Eltanin.Core TextFields TextLines
open Eltanin.Audit (isWhitespace)

/-! ## Numbers -/

/-- What the kernel prints numbers and letters with. -/
def FieldChar (c : Char) : Prop := c.isAlphanum = true ∨ c = '-'

theorem isAlphanum_range {c : Char} (hc : c.isAlphanum = true) :
    ((65 ≤ c.toNat ∧ c.toNat ≤ 90) ∨ (97 ≤ c.toNat ∧ c.toNat ≤ 122)) ∨
      (48 ≤ c.toNat ∧ c.toNat ≤ 57) := by
  rcases Bool.or_eq_true_iff.mp hc with hletter | hdigit
  · refine .inl ?_
    rcases Bool.or_eq_true_iff.mp hletter with hupper | hlower
    · exact .inl (of_decide_eq_true hupper)
    · exact .inr ((Bool.and_eq_true_iff.mp hlower).imp of_decide_eq_true
        of_decide_eq_true)
  · exact .inr ((Bool.and_eq_true_iff.mp hdigit).imp of_decide_eq_true
      of_decide_eq_true)

theorem FieldChar.plain {c : Char} (hc : FieldChar c) :
    isWhitespace c = false ∧ c ≠ ')' := by
  rcases hc with hc | rfl
  · have hrange := isAlphanum_range hc
    refine ⟨?_, ?_⟩
    · simp only [isWhitespace, Bool.or_eq_false_iff, Bool.and_eq_false_iff,
        decide_eq_false_iff_not]
      omega
    · rintro rfl
      exact absurd hrange (by decide)
  · decide

theorem fieldChar_decimal {n : ℕ} {c : Char} (hmem : c ∈ decimal n) :
    FieldChar c := by
  have hdigit := isDigit_of_mem_decimal hmem
  refine .inl ?_
  rw [Char.isAlphanum, hdigit, Bool.or_true]

/-- A nonempty text of such characters. -/
structure FieldText (text : List Char) : Prop where
  nonempty : text ≠ []
  fieldChar : ∀ c ∈ text, FieldChar c

theorem FieldText.isField {text : List Char} (htext : FieldText text) :
    IsField isWhitespace text where
  nonempty := htext.nonempty
  unbroken c hc := (htext.fieldChar c hc).plain.1

theorem fieldText_decimal (n : ℕ) : FieldText (decimal n) where
  nonempty := decimal_ne_nil n
  fieldChar _ hc := fieldChar_decimal hc

theorem fieldText_signedDecimal (value : ℤ) :
    FieldText (signedDecimal value) := by
  cases value with
  | ofNat n => exact fieldText_decimal n
  | negSucc n =>
      refine ⟨List.cons_ne_nil _ _, ?_⟩
      intro c hc
      rcases List.mem_cons.mp hc with rfl | hc
      · exact .inr rfl
      · exact fieldChar_decimal hc

/-! ## A name between two bytes -/

section Between

variable {first last text : List Char} {c d : Char} {comm : List UInt8}

/-- What stands between two ASCII bytes of a text is a text by itself. -/
theorem decode?_between (hc : c.toNat ≤ 127) (hd : d.toNat ≤ 127) :
    decode? (encode first ++ byte c :: (comm ++ byte d :: encode last)) =
        some text ↔
      ∃ name, decode? comm = some name ∧
        text = (first ++ c :: name) ++ d :: last := by
  rw [byte, byte, decode?_append_cons_eq_some_iff hc]
  simp only [decode?_append_cons_eq_some_iff hd, decode?_encode,
    Option.some.injEq]
  constructor
  · rintro ⟨-, after, rfl, ⟨name, -, hname, rfl, rfl⟩, rfl⟩
    refine ⟨name, hname, ?_⟩
    simp only [List.append_assoc, List.cons_append]
  · rintro ⟨name, hname, rfl⟩
    refine ⟨_, _, rfl, ⟨name, _, hname, rfl, rfl⟩, ?_⟩
    simp only [List.append_assoc, List.cons_append]

theorem decode?_between_eq_none (hc : c.toNat ≤ 127) (hd : d.toNat ≤ 127)
    (hcomm : decode? comm = none) :
    decode? (encode first ++ byte c :: (comm ++ byte d :: encode last)) =
      none := by
  rw [Option.eq_none_iff_forall_ne_some]
  intro text htext
  obtain ⟨name, hname, -⟩ := (decode?_between hc hd).mp htext
  rw [hcomm] at hname
  exact nomatch hname

end Between

/-! ## The stat file -/

section Stat

variable (stat : KernelStat)

theorem KernelStat.fieldText :
    ∀ field ∈ stat.fields, FieldText field := by
  intro field hfield
  have hsigned : ∀ values : List ℤ, field ∈ values.map signedDecimal →
      FieldText field := by
    intro values hmem
    obtain ⟨value, -, hvalue⟩ := List.mem_map.mp hmem
    rw [← hvalue]
    exact fieldText_signedDecimal value
  rw [KernelStat.fields, List.mem_cons, List.mem_cons, List.mem_append,
    List.mem_cons] at hfield
  rcases hfield with rfl | rfl | hmiddle | rfl | hrest
  · refine ⟨List.cons_ne_nil _ _, ?_⟩
    intro c hc
    rw [List.mem_singleton.mp hc]
    refine .inl ?_
    rw [Char.isAlphanum, stat.state_letter, Bool.true_or]
  · exact fieldText_decimal _
  · exact hsigned _ hmiddle
  · exact fieldText_decimal _
  · exact hsigned _ hrest

theorem KernelStat.splitWhitespace_tail :
    splitWhitespace stat.tail = stat.fields := by
  have hends : EndsField isWhitespace ['\n'] := by
    intro c hc
    rw [← Option.mem_some_iff.mp hc]
    decide
  have hfields : ∀ field ∈ stat.fields, IsField isWhitespace field :=
    fun field hfield => (stat.fieldText field hfield).isField
  have hlast : TextFields.fields isWhitespace ['\n'] = [] :=
    fields_cons [] rfl
  rw [Linux.splitWhitespace, KernelStat.tail,
    fields_flatMap rfl hfields hends, hlast, List.append_nil]

theorem KernelStat.not_mem_tail : ')' ∉ stat.tail := by
  intro hmem
  rw [KernelStat.tail, List.mem_append, List.mem_flatMap] at hmem
  rcases hmem with ⟨field, hfield, hmem⟩ | hmem
  · rcases List.mem_cons.mp hmem with hspace | hmem
    · exact absurd hspace (by decide)
    · exact ((stat.fieldText field hfield).fieldChar _ hmem).plain.2 rfl
  · exact absurd hmem (by decide)

theorem KernelStat.starttime_field :
    stat.fields[19]? = some (decimal stat.starttime.toNat) := by
  have hlength : (stat.middle.map signedDecimal).length = 17 := by
    rw [List.length_map, stat.middle_length]
  change (stat.middle.map signedDecimal ++
    decimal stat.starttime.toNat :: stat.rest.map signedDecimal)[17]? = _
  rw [List.getElem?_append_right (Nat.le_of_eq hlength), hlength]
  rfl

theorem KernelStat.decode?_file {comm : List UInt8} {text : List Char} :
    decode? (stat.file comm) = some text ↔
      ∃ name, decode? comm = some name ∧
        text = (decimal stat.pid.toNat ++ [' '] ++ '(' :: name) ++
          ')' :: stat.tail :=
  decode?_between (by decide) (by decide)

end Stat

theorem readToString_ok_iff {bytes : List UInt8} {text : List Char} :
    readToString (.ok bytes) = .ok text ↔ decode? bytes = some text := by
  simp only [readToString]
  cases decode? bytes with
  | none => simp
  | some found => simp

/-- The stat file of a process is read for what the kernel put into it, when
its name is a text, and not at all otherwise. -/
theorem parseStat_file_iff (debug : List Char → String) (stat : KernelStat)
    (comm : List UInt8) :
    parseStat debug stat.pid (.ok (stat.file comm)) =
        .ok ⟨stat.ppid, stat.starttime⟩ ↔
      (decode? comm).isSome = true := by
  cases hcomm : decode? comm with
  | none =>
      have hfile : decode? (stat.file comm) = none :=
        decode?_between_eq_none (by decide) (by decide) hcomm
      simp [parseStat, readToString, hfile]
  | some name =>
      have hfile := (stat.decode?_file).mpr ⟨name, hcomm, rfl⟩
      have hppid : stat.fields[1]? = some (decimal stat.ppid.toNat) := rfl
      simp only [parseStat, readToString_ok_iff.mpr hfile,
        rsplitOnce_append_cons stat.not_mem_tail, stat.splitWhitespace_tail,
        Nat.reduceSub, hppid, stat.starttime_field, statField,
        parseU32_decimal, parseU64_decimal, Option.isSome_some]

/-! ## The escaped name -/

theorem byte_newline_not_mem_escapeComm (comm : List UInt8) :
    byte '\n' ∉ escapeComm comm := by
  intro hmem
  obtain ⟨b, -, hb⟩ := List.mem_flatMap.mp hmem
  unfold escapeByte at hb
  split_ifs at hb with hnewline hbackslash
  · exact absurd hb (by decide)
  · exact absurd hb (by decide)
  · exact hnewline (List.mem_singleton.mp hb).symm

theorem decode?_append_byte_isSome {first rest : List UInt8} (c : Char)
    (hc : c.toNat ≤ 127) :
    (decode? (first ++ byte c :: rest)).isSome = true ↔
      (decode? first).isSome = true ∧ (decode? rest).isSome = true := by
  simp only [Option.isSome_iff_exists, byte,
    decode?_append_cons_eq_some_iff hc]
  constructor
  · rintro ⟨text, before, after, hbefore, hafter, -⟩
    exact ⟨⟨before, hbefore⟩, after, hafter⟩
  · rintro ⟨⟨before, hbefore⟩, after, hafter⟩
    exact ⟨_, before, after, hbefore, hafter, rfl⟩

/-- Escaping an ASCII byte by two others changes nothing about whether the
bytes are a text.  The bytes before the name are carried along, because a
character may be spread over several of them. -/
theorem decode?_append_escapeComm_isSome (first comm : List UInt8) :
    (decode? (first ++ escapeComm comm)).isSome = true ↔
      (decode? (first ++ comm)).isSome = true := by
  have hescaped : ∀ (c d e : Char) (before rest : List UInt8),
      c.toNat ≤ 127 → d.toNat ≤ 127 → e.toNat ≤ 127 →
      ((decode? (escapeComm rest)).isSome = true ↔
        (decode? rest).isSome = true) →
      ((decode? (before ++ byte c :: byte d :: escapeComm rest)).isSome =
          true ↔
        (decode? (before ++ byte e :: rest)).isSome = true) := by
    intro c d e before rest hc hd he hrest
    have hsecond : (decode? (byte d :: escapeComm rest)).isSome = true ↔ _ :=
      @decode?_append_byte_isSome [] (escapeComm rest) d hd
    rw [decode?_append_byte_isSome c hc, decode?_append_byte_isSome e he,
      hsecond, hrest]
    exact and_congr_right fun _ => and_iff_right rfl
  induction comm generalizing first with
  | nil => rfl
  | cons b comm ih =>
      have hcomm := ih []
      simp only [List.nil_append] at hcomm
      have hsplit : escapeComm (b :: comm) = escapeByte b ++ escapeComm comm :=
        rfl
      rw [hsplit, escapeByte]
      split_ifs with hnewline hbackslash
      · rw [hnewline]
        exact hescaped _ _ _ first comm (by decide) (by decide) (by decide)
          hcomm
      · rw [hbackslash]
        exact hescaped _ _ _ first comm (by decide) (by decide) (by decide)
          hcomm
      · have hrest := ih (first ++ [b])
        rwa [List.append_assoc, List.append_assoc] at hrest

/-! ## The status file -/

section Status

variable (status : KernelStatus)

theorem KernelStatus.fieldText :
    ∀ field ∈ status.ids, FieldText field := by
  intro field hfield
  simp only [KernelStatus.ids, List.mem_cons, List.not_mem_nil, or_false]
    at hfield
  rcases hfield with rfl | rfl | rfl | rfl <;> exact fieldText_decimal _

theorem KernelStatus.splitWhitespace_uidLine :
    splitWhitespace status.uidLine = "Uid:".toList :: status.ids := by
  have hnone : EndsField isWhitespace ([] : List Char) := by
    intro c hc
    exact nomatch hc
  have hlabel : IsField isWhitespace "Uid:".toList := by
    have hplain : "Uid:".toList.any isWhitespace = false := rfl
    refine ⟨by decide, ?_⟩
    intro c hc
    exact Bool.eq_false_iff.mpr (List.any_eq_false.mp hplain c hc)
  have htab : isWhitespace '\t' = true := rfl
  have hids := fields_flatMap htab
    (fun field hfield => (status.fieldText field hfield).isField) hnone
  have hends := endsField_flatMap status.ids htab hnone
  rw [fields_nil, List.append_nil, List.append_nil] at hids
  rw [List.append_nil] at hends
  rw [Linux.splitWhitespace, KernelStatus.uidLine, fields_append _ hends,
    hlabel.fields_eq, hids]
  rfl

/-- Neither a newline nor a return is in the line of the user ids. -/
theorem KernelStatus.uidLine_plain {c : Char} (hmem : c ∈ status.uidLine) :
    c ≠ '\n' ∧ c ≠ '\r' := by
  rw [KernelStatus.uidLine, List.mem_append, List.mem_flatMap] at hmem
  have hfield : ∀ field ∈ status.ids, c ∈ field → c ≠ '\n' ∧ c ≠ '\r' := by
    intro field hfield hc
    have hblank := ((status.fieldText field hfield).fieldChar c hc).plain.1
    constructor
    · rintro rfl
      exact absurd hblank (by decide)
    · rintro rfl
      exact absurd hblank (by decide)
  rcases hmem with hlabel | ⟨field, hids, hmem⟩
  · simp only [String.reduceToList, List.mem_cons, List.not_mem_nil,
      or_false] at hlabel
    rcases hlabel with rfl | rfl | rfl | rfl <;> decide
  · rcases List.mem_cons.mp hmem with rfl | hmem
    · decide
    · exact hfield field hids hmem

theorem find?_textLines_cons {label line rest : List Char}
    (hline : '\n' ∉ line) (hlabel : ¬label <+: line) :
    (textLines (line ++ '\n' :: rest)).find? (label.isPrefixOf ·) =
      (textLines rest).find? (label.isPrefixOf ·) := by
  obtain ⟨found, hfound, hlines⟩ :=
    @exists_lines_append_newline _ _ '\n' '\r' line rest hline
  have hother : label.isPrefixOf found = false := by
    rw [Bool.eq_false_iff]
    intro hprefix
    exact hlabel ((List.isPrefixOf_iff_prefix.mp hprefix).trans hfound)
  rw [textLines, hlines, List.find?_cons, hother]
  rfl

/-- The lines in front of the one that is looked for are passed over. -/
theorem find?_textLines_append {label rest : List Char}
    {before : List (List Char)} (hlines : ∀ line ∈ before, '\n' ∉ line)
    (hlabels : ∀ line ∈ before, ¬label <+: line) :
    (textLines (before.flatMap (fun line => line ++ ['\n']) ++ rest)).find?
        (label.isPrefixOf ·) =
      (textLines rest).find? (label.isPrefixOf ·) := by
  induction before with
  | nil => rfl
  | cons line before ih =>
      have hrest := ih
        (fun other hother => hlines other (List.mem_cons_of_mem line hother))
        (fun other hother => hlabels other (List.mem_cons_of_mem line hother))
      rw [List.flatMap_cons, List.append_assoc, List.append_assoc,
        List.singleton_append,
        find?_textLines_cons (hlines line List.mem_cons_self)
          (hlabels line List.mem_cons_self), hrest]

theorem KernelStatus.find?_tail :
    (textLines status.tail).find? ("Uid:".toList.isPrefixOf ·) =
      some status.uidLine := by
  have hlabel : "Uid:".toList.isPrefixOf status.uidLine = true :=
    List.isPrefixOf_iff_prefix.mpr (List.prefix_append _ _)
  have hnewline : '\n' ∉ status.uidLine := fun hmem =>
    (status.uidLine_plain hmem).1 rfl
  have hreturn : '\r' ∉ status.uidLine := fun hmem =>
    (status.uidLine_plain hmem).2 rfl
  rw [KernelStatus.tail,
    find?_textLines_append status.before_lines status.before_labels,
    textLines, lines_append_newline hnewline hreturn,
    List.find?_cons_of_pos hlabel]

theorem KernelStatus.decode?_file {comm : List UInt8} {text : List Char} :
    decode? (status.file comm) = some text ↔
      ∃ name, decode? (escapeComm comm) = some name ∧
        text = ("Name:".toList ++ '\t' :: name) ++ '\n' :: status.tail :=
  decode?_between (by decide) (by decide)

end Status

/-- The first line of a status file hides no other. -/
theorem KernelStatus.find?_file (status : KernelStatus) {comm : List UInt8}
    {name : List Char} (hname : decode? (escapeComm comm) = some name) :
    (textLines (("Name:".toList ++ '\t' :: name) ++ '\n' :: status.tail)).find?
        ("Uid:".toList.isPrefixOf ·) =
      some status.uidLine := by
  have hnewline : '\n' ∉ "Name:".toList ++ '\t' :: name := by
    have hbytes := byte_newline_not_mem_escapeComm comm
    rw [decode?_eq_some_iff.mp hname] at hbytes
    have hchars : '\n' ∉ name := fun hmem =>
      hbytes ((mem_encode_iff (by decide)).mpr hmem)
    rw [List.mem_append, List.mem_cons, not_or, not_or]
    exact ⟨by decide, by decide, hchars⟩
  have hlabel : ¬"Uid:".toList <+: "Name:".toList ++ '\t' :: name := by
    intro hprefix
    exact absurd (List.cons_prefix_cons.mp hprefix).1 (by decide)
  rw [find?_textLines_cons hnewline hlabel, status.find?_tail]

theorem readStatusIds_of_not_text (debug : List Char → String) (pid : UInt32)
    (status : KernelStatus) {comm : List UInt8}
    (hcomm : decode? comm = none) :
    ∃ reason, readStatusIds debug pid "Uid:" (.ok (status.file comm)) =
      (.missing reason, .missing reason) := by
  have hescape := decode?_append_escapeComm_isSome [] comm
  have hname : decode? (escapeComm comm) = none := by
    rw [← Option.not_isSome_iff_eq_none]
    intro hsome
    rw [← List.nil_append (escapeComm comm), hescape, List.nil_append, hcomm]
      at hsome
    exact nomatch hsome
  have hfile : decode? (status.file comm) = none :=
    decode?_between_eq_none (by decide) (by decide) hname
  simp only [readStatusIds, readToString, hfile]
  exact ⟨_, rfl⟩

/-- The status file of a process is read for the ids the kernel put into it,
when its name is a text, and not at all otherwise. -/
theorem readStatusIds_file_iff (debug : List Char → String) (pid : UInt32)
    (status : KernelStatus) (comm : List UInt8) :
    readStatusIds debug pid "Uid:" (.ok (status.file comm)) =
        (.present status.real .kernelObserved,
          .present status.effective .kernelObserved) ↔
      (decode? comm).isSome = true := by
  cases hcomm : decode? comm with
  | none =>
      obtain ⟨reason, hids⟩ :=
        readStatusIds_of_not_text debug pid status hcomm
      simp [hids]
  | some text =>
      have hescape := (decode?_append_escapeComm_isSome [] comm).mpr
        (by rw [List.nil_append, hcomm]; rfl)
      obtain ⟨name, hname⟩ := Option.isSome_iff_exists.mp hescape
      rw [List.nil_append] at hname
      have hfile := (status.decode?_file).mpr ⟨name, hname, rfl⟩
      simp only [readStatusIds, readToString_ok_iff.mpr hfile,
        status.find?_file hname, status.splitWhitespace_uidLine,
        Option.isSome_some, iff_true]
      simp only [KernelStatus.ids, List.drop_succ_cons, List.drop_zero,
        List.getElem?_cons_zero, List.getElem?_cons_succ, statusId,
        Option.map_some, parseU32_decimal]

/-! ## What a name can do -/

/-- A process that gives itself a name which is no text is a peer nothing is
known about: it is refused, and no other verdict is within its reach. -/
theorem peer_of_status_file (debug : List Char → String)
    (credential : PeerCredential) (observed : ExecutionContext)
    (status : KernelStatus) (comm : List UInt8) :
    (PeerContext.fromKernelObservation credential observed
        (readStatusIds debug credential.pid "Uid:"
          (.ok (status.file comm))).1
        (readStatusIds debug credential.pid "Uid:"
          (.ok (status.file comm))).2).authorizable = some observed ↔
      (decode? comm).isSome = true ∧
        (credential.effectiveUid = status.real ∨
          credential.effectiveUid = status.effective) := by
  rw [PeerContext.authorizable_fromKernelObservation]
  cases hcomm : decode? comm with
  | none =>
      obtain ⟨reason, hids⟩ :=
        readStatusIds_of_not_text debug credential.pid status hcomm
      rw [hids]
      simp [UidAgrees, Evidence.trusted?]
  | some name =>
      have hids := (readStatusIds_file_iff debug credential.pid status
        comm).mpr (by rw [hcomm]; rfl)
      rw [hids]
      simp [UidAgrees, Evidence.trusted?, eq_comm]

/-- A name that is a text leaves no trace in what is read of the process, and
a name that is none leaves nothing to be read. -/
theorem identity_read_iff_name_is_text (debug : List Char → String)
    (stat : KernelStat) (status : KernelStatus) (comm : List UInt8) :
    (parseStat debug stat.pid (.ok (stat.file comm)) =
          .ok ⟨stat.ppid, stat.starttime⟩ ∧
        readStatusIds debug stat.pid "Uid:" (.ok (status.file comm)) =
          (.present status.real .kernelObserved,
            .present status.effective .kernelObserved)) ↔
      (decode? comm).isSome = true := by
  rw [parseStat_file_iff, readStatusIds_file_iff, and_self_iff]

def sampleStat : KernelStat where
  pid := 4242
  state := 'S'
  state_letter := rfl
  ppid := 1
  middle := List.replicate 17 0
  middle_length := rfl
  starttime := 123456
  rest := [0, -1]

def sampleStatus : KernelStatus where
  before := ["State:\tS".toList]
  before_lines := by decide
  before_labels := by decide
  real := 1000
  effective := 1000
  saved := 1000
  fs := 1000
  after := "Gid:\t1000\t1000\t1000\t1000\n".toList

/-- The name is the one byte `0xff`. -/
theorem identity_not_read_of_undecodable_name :
    ¬(parseStat String.ofList sampleStat.pid
          (.ok (sampleStat.file [0xff])) =
        .ok ⟨sampleStat.ppid, sampleStat.starttime⟩ ∧
      readStatusIds String.ofList sampleStat.pid "Uid:"
          (.ok (sampleStatus.file [0xff])) =
        (.present sampleStatus.real .kernelObserved,
          .present sampleStatus.effective .kernelObserved)) := by
  have hcomm : decode? [0xff] = none :=
    @decode?_eq_none_of_mem [0xff] 0xff List.mem_cons_self (by decide)
  intro hread
  have hsome := (parseStat_file_iff _ sampleStat [0xff]).mp hread.1
  rw [hcomm] at hsome
  exact nomatch hsome

end Eltanin.Linux
