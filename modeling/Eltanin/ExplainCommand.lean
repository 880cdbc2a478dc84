import Eltanin.AuditModel
import Eltanin.TextFields

/-!
# The names of events on paper

`eltanin-explain` prints a record under the name of its event and takes such a
name back from its arguments.  An instance may be called anything, so it is
the last `#` which ends its part of a name.
-/

namespace Eltanin.Audit

open Eltanin.Core Backend Protocol TextFields

def AuditEventId.display (self : AuditEventId) : String :=
  self.instanceId.tag ++ "#" ++ String.ofList (decimal self.sequence.toNat)

section Command

-- How `{:?}` shows a text.
variable (debug : String → String)

def parseEventId (text : String) : Except String AuditEventId :=
  match rsplitOnce '#' text.toList with
  | none => .error s!"expected <instance>#<sequence>, got {debug text}"
  | some (instanceText, sequenceText) =>
      match parseU64 sequenceText with
      | .error error =>
          .error s!"invalid sequence in {debug text}: {error.text}"
      | .ok sequence => .ok ⟨⟨String.ofList instanceText⟩, sequence⟩

/-- The variables of the loop over the arguments. -/
structure ExplainOptions where
  logPath : Option String
  selector : Option Selector
  deriving DecidableEq

inductive ExplainFlag where
  | log
  | event
  | lease
  | pid
  deriving DecidableEq, Repr

def ExplainFlag.ofArg : String → Option ExplainFlag
  | "--log" => some .log
  | "--event" => some .event
  | "--lease" => some .lease
  | "--pid" => some .pid
  | _ => none

/-- One round of the loop, after the flag's value has been taken. -/
def ExplainOptions.take (options : ExplainOptions) (value : String) :
    ExplainFlag → Except String ExplainOptions
  | .log => .ok { options with logPath := some value }
  | .event =>
      match parseEventId debug value with
      | .error error => .error error
      | .ok id => .ok { options with selector := some (.event id) }
  | .lease =>
      match parseEventId debug value with
      | .error error => .error error
      | .ok id =>
          .ok { options with
            selector := some (.lease ⟨id.instanceId, id.sequence⟩) }
  | .pid =>
      match parseU32 value.toList with
      | .error error => .error s!"invalid pid: {error.text}"
      | .ok pid => .ok { options with selector := some (.pid pid) }

def parseOptions (options : ExplainOptions) :
    List String → Except String ExplainOptions
  | [] => .ok options
  | arg :: args =>
      match ExplainFlag.ofArg arg with
      | none => .error s!"unrecognized argument: {arg}"
      | some flag =>
          match args with
          | [] => .error s!"{arg} requires a value"
          | value :: args =>
              match options.take debug value flag with
              | .error error => .error error
              | .ok options => parseOptions options args

end Command

/-! ## What is printed -/

/-- How `{:?}` shows the parts of a record. -/
structure RecordFormats where
  operation : RecordedOperation → String
  requested : RecordedRequest → String
  consistency : RecordedPeerConsistency → String
  uid : Evidence UInt32 → String
  text : Evidence String → String
  outcome : RecordedOutcome → String
  response : AgentResponse → String

/-- `{:09}`. -/
def nineDigits (n : ℕ) : String :=
  String.ofList (List.replicate (9 - (decimal n).length) '0' ++ decimal n)

def releaseNote : RecordedRequest → String
  | .releaseLease _ =>
      "note: a release record does not name a resource — correlate to the " ++
        "grant record for the same lease id to recover it.\n"
  | _ => ""

def renderPeer (formats : RecordFormats) (peer : RecordedPeer) : String :=
  let workload := peer.observed.workload
  s!"peer: pid={peer.credential.pid} " ++
    s!"consistency={formats.consistency peer.consistency}\n" ++
    s!"workload: uid={formats.uid workload.uid} " ++
    s!"executable_path={formats.text workload.executablePath} " ++
    s!"executable_hash={formats.text workload.executableHash} " ++
    s!"cgroup={formats.text peer.observed.cgroupPath}\n"

def render (formats : RecordFormats) (record : AuditRecord) : String :=
  s!"event: {record.eventId.display}\n" ++
    (s!"recorded_at: unix {record.recordedAt.unixSecs}s." ++
      s!"{nineDigits record.recordedAt.nanos.toNat}n\n" ++
      s!"operation: {formats.operation record.operation}\n" ++
      s!"requested: {formats.requested record.requested}\n" ++
      renderPeer formats record.peer ++
      s!"outcome: {formats.outcome record.outcome}\n" ++
      s!"response: {formats.response record.response}\n" ++
      releaseNote record.requested)

/-- Whether something was found, and the lines that say so. -/
def report (formats : RecordFormats) :
    SelectionResult → Bool × List String
  | .found records => (true, records.map (render formats))
  | .possiblyLost =>
      (false, ["no record found for that event id, but it falls inside an " ++
        "observed sequence gap for its agent instance — it may exist and " ++
        "have failed to persist (audit persistence is best-effort; see " ++
        "docs/product/SECURITY_MODEL.md)."])
  | .notFound => (false, ["no matching record found."])

/-- What the command runs in: the file system, `ELTANIN_AUDIT_LOG`, and the
formats that are left open. -/
structure ExplainWorld where
  debug : String → String
  formats : RecordFormats
  codec : RecordCodec
  auditLog : Option String
  readFile : String → Except String (List UInt8)

def ExplainWorld.readLog (world : ExplainWorld) (path : String) :
    Except String LogScan :=
  match world.readFile path with
  | .error reason => .error s!"failed to read audit log: {reason}"
  | .ok contents =>
      match Audit.readLog world.codec contents with
      | .error (.io reason) => .error s!"failed to read audit log: {reason}"
      | .ok scan => .ok scan

def ExplainWorld.run (world : ExplainWorld) (args : List String) :
    Except String (Bool × List String) :=
  match parseOptions world.debug ⟨world.auditLog, none⟩ args with
  | .error error => .error error
  | .ok options =>
      match options.logPath, options.selector with
      | none, _ =>
          .error "no audit log path given (--log or ELTANIN_AUDIT_LOG)"
      | some _, none => .error "one of --event, --lease, --pid is required"
      | some path, some selector =>
          match world.readLog path with
          | .error error => .error error
          | .ok scan => .ok (report world.formats (select scan selector))

/-! ## A printed name is the name of its event -/

theorem AuditEventId.toList_display (id : AuditEventId) :
    id.display.toList =
      id.instanceId.tag.toList ++ '#' :: decimal id.sequence.toNat := by
  simp [AuditEventId.display, String.toList_append]

theorem separator_not_mem_decimal (n : ℕ) : '#' ∉ decimal n := by
  intro hmem
  exact absurd (isDigit_of_mem_decimal hmem) (by decide)

theorem parseEventId_display (debug : String → String) (id : AuditEventId) :
    parseEventId debug id.display = .ok id := by
  have hsplit : rsplitOnce '#' id.display.toList =
      some (id.instanceId.tag.toList, decimal id.sequence.toNat) := by
    rw [id.toList_display]
    exact rsplitOnce_append_cons (separator_not_mem_decimal _)
  simp only [parseEventId, hsplit, parseU64_decimal, String.ofList_toList]

theorem AuditEventId.display_injective :
    Function.Injective AuditEventId.display := by
  intro first second hdisplay
  have hparse := parseEventId_display id first
  rw [hdisplay, parseEventId_display, Except.ok.injEq] at hparse
  exact hparse.symm

section Selection

variable (debug : String → String) (options : ExplainOptions)
  (args : List String)

theorem parseOptions_log (path : String) :
    parseOptions debug options ("--log" :: path :: args) =
      parseOptions debug { options with logPath := some path } args :=
  rfl

theorem parseOptions_event (id : AuditEventId) :
    parseOptions debug options ("--event" :: id.display :: args) =
      parseOptions debug { options with selector := some (.event id) }
        args := by
  simp only [parseOptions, ExplainFlag.ofArg, ExplainOptions.take,
    parseEventId_display]

theorem parseOptions_lease (lease : LeaseId) :
    parseOptions debug options
        ("--lease" :: AuditEventId.display ⟨lease.issuer, lease.sequence⟩ ::
          args) =
      parseOptions debug { options with selector := some (.lease lease) }
        args := by
  simp only [parseOptions, ExplainFlag.ofArg, ExplainOptions.take,
    parseEventId_display]

end Selection

/-- With a log and a selector the command answers by what is selected. -/
theorem ExplainWorld.run_of_options (world : ExplainWorld)
    {args : List String} {path : String} {selector : Selector}
    (hoptions : parseOptions world.debug ⟨world.auditLog, none⟩ args =
      .ok ⟨some path, some selector⟩) :
    world.run args =
      (world.readLog path).map fun scan =>
        report world.formats (select scan selector) := by
  simp only [ExplainWorld.run, hoptions]
  cases world.readLog path <;> rfl

/-- Printer and parser agree on every name: the name under which a record is
printed selects the event it was printed for, and as the name of a lease the
lease of the same two parts. -/
theorem printed_name_selects_event :
    (∀ (debug : String → String) (id : AuditEventId),
      parseEventId debug id.display = .ok id) ∧
    Function.Injective AuditEventId.display ∧
    (∀ (formats : RecordFormats) (record : AuditRecord),
      ∃ details, render formats record =
        "event: " ++ record.eventId.display ++ "\n" ++ details) ∧
    (∀ (world : ExplainWorld) (path : String) (id : AuditEventId),
      world.run ["--log", path, "--event", id.display] =
        (world.readLog path).map fun scan =>
          report world.formats (select scan (.event id))) ∧
    ∀ (world : ExplainWorld) (path : String) (lease : LeaseId),
      world.run ["--log", path, "--lease",
          AuditEventId.display ⟨lease.issuer, lease.sequence⟩] =
        (world.readLog path).map fun scan =>
          report world.formats (select scan (.lease lease)) := by
  refine ⟨parseEventId_display, AuditEventId.display_injective,
    fun formats record => ⟨_, rfl⟩, ?_, ?_⟩
  · intro world path id
    apply world.run_of_options
    rw [parseOptions_log, parseOptions_event]
    rfl
  · intro world path lease
    apply world.run_of_options
    rw [parseOptions_log, parseOptions_lease]
    rfl

end Eltanin.Audit
