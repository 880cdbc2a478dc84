import Eltanin.LinuxProcess
import Eltanin.ListenerModel
import Eltanin.DaemonModel
import Eltanin.PolicyFile

/-!
# Starting the agent

`eltanin-agentd` reads its environment, loads its policy and derives the
restart epoch from its own process before it binds the socket.  Each of these
may fail, and then nothing is started.  The instance id is a text made of the
process id and the start token.
-/

namespace Eltanin.Core

/-! ## What the errors of a policy say -/

section Text

-- How `{:?}` shows a text.
variable (debug : List Char → String)

def RuleId.debugText (self : RuleId) : String :=
  s!"RuleId({debug self.id.toList})"

def PolicyError.text : PolicyError → String
  | .emptyPolicyId => "policy id must not be empty"
  | .emptyRuleId => "rule id must not be empty"
  | .duplicateRuleId rule => s!"duplicate rule id: {rule.debugText debug}"
  | .ruleWithoutConditions rule =>
      s!"rule {rule.debugText debug} has no conditions"
  | .duplicateConditionKind rule =>
      s!"rule {rule.debugText debug} has more than one condition " ++
        "on the same field"
  | .unknownActionInRule rule =>
      s!"rule {rule.debugText debug} names an unrecognized action"
  | .unsupportedVersion found expected =>
      s!"unsupported domain schema version: found {found}, expected {expected}"

end Text

end Eltanin.Core

namespace Eltanin.Agent

open Json Eltanin.Core Protocol TextFields TextLines

def PolicyLoadError.text (debug : List Char → String) :
    PolicyLoadError → String
  | .io reason => s!"failed to read policy file: {reason}"
  | .json reason => s!"failed to parse policy file as JSON: {reason}"
  | .invalid error => error.text debug

def ConfigError.text : ConfigError → String
  | .nonPositiveLeaseTtl => "lease ttl must be greater than zero"

/-! ## The instance id -/

inductive InstanceIdError where
  | startTokenUnavailable (reason : String)
  deriving DecidableEq, Repr

def InstanceIdError.text : InstanceIdError → String
  | .startTokenUnavailable reason =>
      s!"this process's own start token is not kernel-observed ({reason})" ++
        " — refusing to mint a degenerate restart epoch"

def instanceText (pid : UInt32) (start : ProcessStartToken) : List Char :=
  "agent-pid-".toList ++ decimal pid.toNat ++
    ("-start-".toList ++ decimal start.token.toNat)

/-- `issuer_instance_id`, from what the platform's collector reports of this
process. -/
def issuerInstanceId (pid : UInt32) :
    Evidence ProcessStartToken → Except InstanceIdError IssuerInstanceId
  | .present value _ => .ok ⟨String.ofList (instanceText pid value)⟩
  | .missing reason => .error (.startTokenUnavailable reason)
  | .unsupported => .error (.startTokenUnavailable
      "process start token collection is unsupported on this platform")

/-! ## The socket mode -/

/-- `trim_start_matches("0o")`. -/
def trimOctal : List Char → List Char
  | '0' :: 'o' :: rest => trimOctal rest
  | text => text

def parseOctalDigits (bound value : ℕ) :
    List Char → Except ParseIntError ℕ
  | [] => .ok value
  | c :: rest =>
      if '0' ≤ c ∧ c ≤ '7' then
        if 8 * value + (c.toNat - '0'.toNat) < bound then
          parseOctalDigits bound (8 * value + (c.toNat - '0'.toNat)) rest
        else .error .posOverflow
      else .error .invalidDigit

/-- `u32::from_str_radix(text, 8)`. -/
def parseOctalU32 (text : List Char) : Except ParseIntError UInt32 :=
  Except.map UInt32.ofNat
    (match text with
    | [] => .error .empty
    | ['+'] => .error .invalidDigit
    | '+' :: digits => parseOctalDigits UInt32.size 0 digits
    | digits => parseOctalDigits UInt32.size 0 digits)

/-! ## Start -/

/-- What the daemon finds when it is started. -/
structure Environment where
  varOs : String → Option (List UInt8)
  readFile : List Char → Except String (List UInt8)
  openAuditLog : List Char → Except String Unit
  processId : UInt32
  processStart : Evidence ProcessStartToken

/-- `env::var`, which fails on a value that is no text as if it were unset. -/
def Environment.var (self : Environment) (name : String) :
    Option (List Char) :=
  (self.varOs name).bind decode?

def requiredVar (env : Environment) (name : String) :
    Except String (List Char) :=
  match env.var name with
  | none => .error s!"required environment variable {name} is not set"
  | some value => .ok value

def Duration.fromSecs (secs : UInt64) : Duration where
  asNanos := secs.toNat * 1000000000
  inRange := by
    have hbound := secs.toNat_lt_size
    omega

/-- How `{:?}` shows a text, and what `to_string_lossy` makes of bytes. -/
structure Display where
  debug : List Char → String
  lossy : List UInt8 → String

/-- `ELTANIN_AUDIT_LOG`: the audit log which is opened, if any. -/
def openSink (display : Display) (env : Environment) :
    Except String (Option (List Char)) :=
  match env.varOs "ELTANIN_AUDIT_LOG" with
  | none => .ok none
  | some raw =>
      match decode? raw with
      | none => .error
          s!"ELTANIN_AUDIT_LOG is set but not valid UTF-8: {display.lossy raw}"
      | some path =>
          match env.openAuditLog path with
          | .error error => .error s!"failed to open audit log: {error}"
          | .ok () => .ok (some path)

/-- What is handed to `daemon::run`: where to listen, the server, the audit
log, and the resources the backend was given. -/
structure Agentd where
  config : AgentConfig
  server : AgentServer
  auditLog : Option (List Char)
  seeded : List ResourceIdentity

def AgentConfig.defaultSocketPath : String := "/run/eltanin/agent.sock"

/-- The defaults of `AgentConfig::new`. -/
def defaultServerConfig : ServerConfig where
  maxConnections := 64
  drainTimeout := Duration.fromSecs 10

section Start

variable (text : JsonText) (display : Display)

def readSocketMode (env : Environment) : Except String UInt32 := do
  let modeStr ← requiredVar env "ELTANIN_AGENT_SOCKET_MODE"
  (parseOctalU32 (trimOctal modeStr)).mapError fun error =>
    s!"ELTANIN_AGENT_SOCKET_MODE {display.debug modeStr} is not valid " ++
      s!"octal: {error.text}"

def readPolicy (env : Environment) : Except String PolicySet := do
  let path ← requiredVar env "ELTANIN_AGENT_POLICY"
  (loadPolicy text (env.readFile path)).mapError fun error =>
    s!"failed to load policy {String.ofList path}: {error.text display.debug}"

def readLeaseTtl (env : Environment) : Except String AuthorizationConfig := do
  let ttlStr ← requiredVar env "ELTANIN_AGENT_LEASE_TTL_SECS"
  let ttlSecs ← (parseU64 ttlStr).mapError fun error =>
    s!"ELTANIN_AGENT_LEASE_TTL_SECS {display.debug ttlStr} is not a valid " ++
      s!"u64: {error.text}"
  (AuthorizationConfig.new (Duration.fromSecs ttlSecs)).mapError fun error =>
    s!"invalid lease ttl: {error.text}"

def readInstance (env : Environment) : Except String IssuerInstanceId :=
  (issuerInstanceId env.processId env.processStart).mapError fun error =>
    s!"cannot start agent: {error.text}"

/-- `run`, up to the call of `daemon::run`. -/
def start (env : Environment) : Except String Agentd := do
  let socketPath :=
    (env.var "ELTANIN_AGENT_SOCKET").elim AgentConfig.defaultSocketPath
      String.ofList
  let socketMode ← readSocketMode display env
  let policy ← readPolicy text display env
  let authzConfig ← readLeaseTtl display env
  let instanceId ← readInstance env
  let auditLog ← openSink display env
  return {
    config := ⟨socketPath, socketMode⟩
    server := ⟨defaultServerConfig, .ofJson text,
      ⟨instanceId, policy, authzConfig⟩⟩
    auditLog := auditLog
    seeded := policy.resources }

end Start

/-! ## What a start has gone through -/

theorem bind_eq_ok_iff {ε α β : Type} {first : Except ε α}
    {second : α → Except ε β} {value : β} :
    first >>= second = .ok value ↔
      ∃ found, first = .ok found ∧ second found = .ok value := by
  cases first with
  | error error =>
      constructor
      · intro herror
        contradiction
      · rintro ⟨found, hfound, -⟩
        contradiction
  | ok found =>
      constructor
      · intro hsecond
        exact ⟨found, rfl, hsecond⟩
      · rintro ⟨other, hother, hsecond⟩
        cases hother
        exact hsecond

theorem mapError_eq_ok_iff {ε ε' α : Type} {outcome : Except ε α}
    {describe : ε → ε'} {value : α} :
    outcome.mapError describe = .ok value ↔ outcome = .ok value := by
  cases outcome <;> simp [Except.mapError]

theorem requiredVar_eq_ok_iff {env : Environment} {name : String}
    {value : List Char} :
    requiredVar env name = .ok value ↔ env.var name = some value := by
  unfold requiredVar
  cases env.var name <;> simp

theorem authorizationConfig_new_eq_ok_iff {ttl : Duration}
    {config : AuthorizationConfig} :
    AuthorizationConfig.new ttl = .ok config ↔
      config.leaseTtl = ttl ∧
        config.maxOutstandingLeases =
          AuthorizationConfig.defaultMaxOutstandingLeases := by
  unfold AuthorizationConfig.new
  split
  next hzero =>
    constructor
    · intro herror
      contradiction
    · rintro ⟨rfl, -⟩
      exact (config.positive hzero).elim
  next hpositive =>
    rcases config with ⟨found, maximum, hfound⟩
    simp [eq_comm]

theorem issuerInstanceId_eq_ok_iff {pid : UInt32}
    {start : Evidence ProcessStartToken} {instanceId : IssuerInstanceId} :
    issuerInstanceId pid start = .ok instanceId ↔
      ∃ token source, start = .present token source ∧
        instanceId = ⟨String.ofList (instanceText pid token)⟩ := by
  cases start with
  | present token source => simp [issuerInstanceId, eq_comm]
  | missing reason => simp [issuerInstanceId]
  | unsupported => simp [issuerInstanceId]

/-- A policy, a ttl and an instance id as this environment gives them. -/
structure StartsWith (text : JsonText) (env : Environment)
    (handler : AuthorizationHandler) : Prop where
  policy : ∃ path, env.var "ELTANIN_AGENT_POLICY" = some path ∧
    HoldsPolicy text (env.readFile path) (.current handler.policy.document)
  ttl : ∃ digits secs,
    env.var "ELTANIN_AGENT_LEASE_TTL_SECS" = some digits ∧
      parseU64 digits = .ok secs ∧
      handler.config.leaseTtl = Duration.fromSecs secs
  outstanding : handler.config.maxOutstandingLeases =
    AuthorizationConfig.defaultMaxOutstandingLeases
  instanceId : ∃ token source, env.processStart = .present token source ∧
    handler.instanceId =
      ⟨String.ofList (instanceText env.processId token)⟩

/-- What the daemon needs to find besides what its handler is made of. -/
structure Startable (display : Display) (env : Environment)
    (agentd : Agentd) : Prop where
  mode : ∃ octal, env.var "ELTANIN_AGENT_SOCKET_MODE" = some octal ∧
    parseOctalU32 (trimOctal octal) = .ok agentd.config.socketMode
  path : agentd.config.socketPath =
    (env.var "ELTANIN_AGENT_SOCKET").elim AgentConfig.defaultSocketPath
      String.ofList
  auditLog : openSink display env = .ok agentd.auditLog

/-- The daemon is started exactly when each stage succeeds, and is then made
of what the stages have found. -/
theorem start_eq_ok_iff {text : JsonText} {display : Display}
    {env : Environment} {agentd : Agentd} :
    start text display env = .ok agentd ↔
      StartsWith text env agentd.server.handler ∧
        Startable display env agentd ∧
        agentd.server.config = defaultServerConfig ∧
        agentd.server.codec = .ofJson text ∧
        agentd.seeded = agentd.server.handler.policy.resources := by
  simp only [start, readSocketMode, readPolicy, readLeaseTtl, readInstance,
    bind_eq_ok_iff, mapError_eq_ok_iff, requiredVar_eq_ok_iff,
    loadPolicy_eq_ok_iff, authorizationConfig_new_eq_ok_iff,
    issuerInstanceId_eq_ok_iff]
  constructor
  · rintro ⟨mode, ⟨octal, hoctal, hmode⟩, policy, ⟨path, hpath, hpolicy⟩,
      config, ⟨digits, hdigits, secs, hsecs, hconfig, hmaximum⟩, instanceId,
      ⟨token, source, hstart, hinstance⟩, auditLog, hauditLog, hagentd⟩
    cases hagentd
    exact ⟨⟨⟨path, hpath, hpolicy⟩, ⟨digits, secs, hdigits, hsecs, hconfig⟩,
      hmaximum, token, source, hstart, hinstance⟩,
      ⟨⟨octal, hoctal, hmode⟩, rfl, hauditLog⟩, rfl, rfl, rfl⟩
  · rcases agentd with ⟨⟨socketPath, mode⟩, ⟨serverConfig, codec,
      ⟨instanceId, policy, config⟩⟩, auditLog, seeded⟩
    rintro ⟨⟨⟨path, hpath, hpolicy⟩, ⟨digits, secs, hdigits, hsecs, hconfig⟩,
      hmaximum, token, source, hstart, hinstance⟩,
      ⟨⟨octal, hoctal, hmode⟩, hsocketPath, hauditLog⟩, rfl, rfl, hseeded⟩
    have hresources : seeded = policy.resources := hseeded
    subst hresources
    refine ⟨mode, ⟨octal, hoctal, hmode⟩, policy, ⟨path, hpath, hpolicy⟩,
      config, ⟨digits, hdigits, secs, hsecs, hconfig, hmaximum⟩, instanceId,
      ⟨token, source, hstart, hinstance⟩, auditLog, hauditLog, ?_⟩
    rw [← hsocketPath]
    rfl

end Eltanin.Agent
