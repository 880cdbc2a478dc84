import Eltanin.AuditRecordModel
import Eltanin.IdentityModel
import Eltanin.TextFields
import Eltanin.TextLines

/-!
# What Linux says about a process

The collector reads `/proc/<pid>/stat` and `/proc/<pid>/status`.  The name a
process gives itself stands in the middle of the first and at the top of the
second, as the bytes it was set to.
-/

namespace Eltanin.Linux

open Eltanin.Core TextFields TextLines
open Eltanin.Audit (isWhitespace)

/-! ## The two readers -/

/-- `fs::read_to_string`, after the bytes have been read. -/
def readToString (file : Except String (List UInt8)) :
    Except String (List Char) :=
  match file with
  | .error error => .error error
  | .ok bytes =>
      match decode? bytes with
      | none => .error "stream did not contain valid UTF-8"
      | some text => .ok text

def splitWhitespace (text : List Char) : List (List Char) :=
  fields isWhitespace text

structure StatFields where
  ppid : UInt32
  starttime : UInt64
  deriving DecidableEq, Repr

/-- One numeric field behind the name. -/
def statField {α : Type} (parse : List Char → Except ParseIntError α)
    (name : String) (field : Option (List Char)) : Except String α :=
  match field with
  | none => .error s!"missing {name} field"
  | some text =>
      match parse text with
      | .error error => .error s!"parse {name}: {error.text}"
      | .ok value => .ok value

section Readers

-- How `{:?}` shows a text.
variable (debug : List Char → String)

def parseStat (observedPid : UInt32) (file : Except String (List UInt8)) :
    Except String StatFields :=
  match readToString file with
  | .error error => .error s!"read /proc/{observedPid}/stat: {error}"
  | .ok raw =>
      match rsplitOnce ')' raw with
      | none => .error s!"/proc/{observedPid}/stat missing ')': {debug raw}"
      | some (_, afterComm) =>
          -- The first of these is field 3, the state.
          let found := splitWhitespace afterComm
          match statField parseU32 "ppid" found[4 - 3]? with
          | .error error => .error error
          | .ok parent =>
              match statField parseU64 "starttime" found[22 - 3]? with
              | .error error => .error error
              | .ok starttime => .ok ⟨parent, starttime⟩

def processStart (pid : UInt32) (file : Except String (List UInt8)) :
    Evidence ProcessStartToken :=
  match parseStat debug pid file with
  | .ok stat => .present ⟨stat.starttime⟩ .kernelObserved
  | .error reason => .missing reason

def parentPid (pid : UInt32) (file : Except String (List UInt8)) :
    Option UInt32 :=
  match parseStat debug pid file with
  | .ok stat => some stat.ppid
  | .error _ => none

/-- The closure `parse` of `read_status_ids`. -/
def statusId (label : String) (line : List Char) (raw : Option (List Char))
    (which : String) : Evidence UInt32 :=
  match raw.map parseU32 with
  | some (.ok value) => .present value .kernelObserved
  | some (.error error) =>
      .missing s!"parse {label} {which}: {error.text}"
  | none =>
      .missing s!"{label} line missing {which} value: {debug line}"

def readStatusIds (pid : UInt32) (label : String)
    (file : Except String (List UInt8)) :
    Evidence UInt32 × Evidence UInt32 :=
  match readToString file with
  | .error error =>
      let reason := s!"read /proc/{pid}/status: {error}"
      (.missing reason, .missing reason)
  | .ok raw =>
      match (textLines raw).find? (label.toList.isPrefixOf ·) with
      | none =>
          let reason := s!"no {label} line in /proc/{pid}/status"
          (.missing reason, .missing reason)
      | some line =>
          let found := (splitWhitespace line).drop 1
          (statusId debug label line found[0]? "real",
            statusId debug label line found[1]? "effective")

/-! ## Ancestors -/

/-- What one read of `/proc` finds: the bytes of a process's stat file, and
where its executable link leads, as text. -/
structure ProcFs where
  stat : UInt32 → Except String (List UInt8)
  exe : UInt32 → Except String String

def executablePath (pid : UInt32) (fs : ProcFs) : Evidence String :=
  match fs.exe pid with
  | .ok path => .present path .kernelObserved
  | .error error => .missing s!"readlink /proc/{pid}/exe: {error}"

def maxAncestryDepth : ℕ := 32

/-- The loop of `ancestry`.  Its rounds read three times each, and every read
may find something else. -/
def ancestryLoop (fs : ℕ → ProcFs) :
    ℕ → ℕ → List ProcessAncestor → List UInt32 → UInt32 →
      List ProcessAncestor
  | 0, _, out, _, _ => out
  | rounds + 1, round, out, seen, current =>
      match parentPid debug current ((fs (3 * round)).stat current) with
      | none => out
      | some parent =>
          if parent = 0 ∨ parent ∈ seen then out
          else
            let ancestor : ProcessAncestor :=
              { pid := parent
                start :=
                  processStart debug parent
                    ((fs (3 * round + 1)).stat parent)
                executablePath :=
                  executablePath parent (fs (3 * round + 2)) }
            ancestryLoop fs rounds (round + 1) (out ++ [ancestor])
              (parent :: seen) parent

def ancestry (fs : ℕ → ProcFs) (startPid : UInt32) : List ProcessAncestor :=
  ancestryLoop debug fs maxAncestryDepth 0 [] [startPid] startPid

end Readers

/-! ## The two files -/

def byte (c : Char) : UInt8 := UInt8.ofNat c.toNat

def signedDecimal : ℤ → List Char
  | .ofNat n => decimal n
  | .negSucc n => '-' :: decimal (n + 1)

/-- What the kernel prints into `/proc/<pid>/stat` besides the name: the state,
the parent, the fields 5 to 21, the start time, and the fields after it. -/
structure KernelStat where
  pid : UInt32
  state : Char
  state_letter : state.isAlpha = true
  ppid : UInt32
  middle : List ℤ
  middle_length : middle.length = 17
  starttime : UInt64
  rest : List ℤ

def KernelStat.fields (stat : KernelStat) : List (List Char) :=
  [stat.state] :: decimal stat.ppid.toNat ::
    (stat.middle.map signedDecimal ++
      decimal stat.starttime.toNat :: stat.rest.map signedDecimal)

def KernelStat.tail (stat : KernelStat) : List Char :=
  stat.fields.flatMap (fun field => ' ' :: field) ++ ['\n']

def KernelStat.file (stat : KernelStat) (comm : List UInt8) : List UInt8 :=
  encode (decimal stat.pid.toNat ++ [' ']) ++
    byte '(' :: (comm ++ byte ')' :: encode stat.tail)

/-- The kernel escapes a newline and a backslash in the name. -/
def escapeByte (b : UInt8) : List UInt8 :=
  if b = byte '\n' then [byte '\\', byte 'n']
  else if b = byte '\\' then [byte '\\', byte '\\']
  else [b]

def escapeComm (comm : List UInt8) : List UInt8 := comm.flatMap escapeByte

/-- What the kernel prints into `/proc/<pid>/status` besides the name: lines
of which none begins as the one for the user ids does, that line, and what
comes after it. -/
structure KernelStatus where
  before : List (List Char)
  before_lines : ∀ line ∈ before, '\n' ∉ line
  before_labels : ∀ line ∈ before, ¬"Uid:".toList <+: line
  real : UInt32
  effective : UInt32
  saved : UInt32
  fs : UInt32
  after : List Char

def KernelStatus.ids (status : KernelStatus) : List (List Char) :=
  [decimal status.real.toNat, decimal status.effective.toNat,
    decimal status.saved.toNat, decimal status.fs.toNat]

def KernelStatus.uidLine (status : KernelStatus) : List Char :=
  "Uid:".toList ++ status.ids.flatMap (fun field => '\t' :: field)

def KernelStatus.tail (status : KernelStatus) : List Char :=
  status.before.flatMap (fun line => line ++ ['\n']) ++
    (status.uidLine ++ '\n' :: status.after)

def KernelStatus.file (status : KernelStatus) (comm : List UInt8) :
    List UInt8 :=
  encode "Name:".toList ++
    byte '\t' :: (escapeComm comm ++ byte '\n' :: encode status.tail)

end Eltanin.Linux
