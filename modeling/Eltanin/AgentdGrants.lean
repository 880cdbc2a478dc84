import Eltanin.AgentdModel
import Eltanin.LinuxAuthorization

/-!
# What a started agent grants

From the environment of the process and the bytes of its policy file to the
lease which a client reads off its connection: a daemon which has been started
grants just what the file allows for what Linux has shown of the peer, under
an id of this start of the process, and for no longer than it was configured
to.
-/

namespace Eltanin.Agent

open Json Eltanin.Core Protocol TextFields Eltanin.Linux Eltanin.Cli

/-! ## The id of a start -/

theorem dash_not_mem_decimal (n : ℕ) : '-' ∉ decimal n := by
  intro hmem
  exact absurd (isDigit_of_mem_decimal hmem) (by decide)

theorem rsplitOnce_instanceText (pid : UInt32) (start : ProcessStartToken) :
    rsplitOnce '-' (instanceText pid start) =
      some ("agent-pid-".toList ++ decimal pid.toNat ++ "-start".toList,
        decimal start.token.toNat) := by
  have hsplit : instanceText pid start =
      ("agent-pid-".toList ++ decimal pid.toNat ++ "-start".toList) ++
        '-' :: decimal start.token.toNat := by
    have hdash : "-start-".toList = "-start".toList ++ ['-'] := by decide
    unfold instanceText
    rw [hdash]
    simp only [List.append_assoc, List.cons_append, List.nil_append]
  rw [hsplit, rsplitOnce_append_cons (dash_not_mem_decimal _)]

theorem decimal_injective : Function.Injective decimal := by
  intro first second heq
  have hvalue := congrArg (fun digits => Nat.ofDigitChars 10 digits 0) heq
  simpa [decimal] using hvalue

/-- Two starts with one instance id are of one process. -/
theorem instanceText_injective {pid other : UInt32}
    {start restart : ProcessStartToken}
    (heq : instanceText pid start = instanceText other restart) :
    pid = other ∧ start = restart := by
  have hsplit := congrArg (rsplitOnce '-') heq
  rw [rsplitOnce_instanceText, rsplitOnce_instanceText, Option.some.injEq,
    Prod.mk.injEq, List.append_left_inj, List.append_right_inj] at hsplit
  have hpid := UInt32.toNat_inj.mp (decimal_injective hsplit.1)
  have htoken := UInt64.toNat_inj.mp (decimal_injective hsplit.2)
  refine ⟨hpid, ?_⟩
  rcases start with ⟨token⟩
  rcases restart with ⟨retoken⟩
  exact congrArg ProcessStartToken.mk htoken

/-! ## Grants -/

/-- Every part of a granted lease is accounted for by the environment of the
daemon, by its policy file, or by what Linux has shown of the peer. -/
structure EarnedGrant (text : JsonText) (debug : List Char → String)
    (env : Environment) (host : ℕ → Proc) (peercred : Except String UCred)
    (request : ClientRequest) (view : LeaseView) : Prop where
  allowed : ∃ path document asked ucred,
    env.var "ELTANIN_AGENT_POLICY" = some path ∧
      HoldsPolicy text (env.readFile path) (.current document) ∧
      document.WellFormed ∧ request = .requestLease asked ∧
      ShownPeer debug host peercred document
        ⟨asked.resource, asked.action⟩ ucred
  issuer : ∃ token source, env.processStart = .present token source ∧
    view.leaseId.issuer =
      ⟨String.ofList (instanceText env.processId token)⟩
  remaining : ∃ digits secs,
    env.var "ELTANIN_AGENT_LEASE_TTL_SECS" = some digits ∧
      parseU64 digits = .ok secs ∧ 0 < view.remaining.asNanos ∧
      view.remaining.asNanos ≤ secs.toNat * 1000000000

section Grant

variable {text : JsonText} {display : Display} {env : Environment}
  {agentd : Agentd} {actions : List DaemonAction} {daemon : Daemon}
  {client : Client} {reception : Reception} {call : Option ℕ}
  {served : Served} {framed : List UInt8} {i : ℕ}
  {debug : List Char → String} {host : ℕ → Proc}
  {peercred : Except String UCred} {view : LeaseView}

theorem issuer_of_word {self : AgentServer} (hruns : self.Runs actions daemon)
    {n : ℕ} {now later : MonotonicTime} {lease : ComputeLease}
    {rest : List Happening}
    (hword : daemon.agent.wordOf n = grantEvents now later lease ++ rest) :
    lease.id.issuer = self.handler.instanceId := by
  have hledger := hruns.agent.ledgerInvariant
  have hmem : (n, Happening.issued lease) ∈ daemon.agent.transcript := by
    rw [← InterleavedSessions.System.mem_wordOf_iff, hword]
    simp [grantEvents]
  rw [← hledger.issuer.instanceId]
  exact (hledger.issuer.issued hmem).1

/-- What a call has granted to a client whose peer was shown is accounted for
in full. -/
theorem EarnedGrant.of_shown (hstart : start text display env = .ok agentd)
    (hruns : agentd.server.Runs actions daemon)
    (hclock : NondecreasingClock daemon.agent) {n : ℕ}
    {request : ClientRequest} {asked : LeaseRequest} {ucred : UCred}
    {peer : PeerContext} {now later : MonotonicTime} {lease : ComputeLease}
    {event : AuthorizationEvent} (hasked : request = .requestLease asked)
    (hshown : ShownPeer debug host peercred
      agentd.server.handler.policy.document
      ⟨asked.resource, asked.action⟩ ucred)
    (hgrants : Grants agentd.server.handler peer asked now later lease view)
    (hword : daemon.agent.wordOf n =
      grantEvents now later lease ++ [.recorded event]) :
    EarnedGrant text debug env host peercred request view := by
  obtain ⟨⟨⟨path, hpath, hpolicy⟩, ⟨digits, secs, hdigits, hsecs, httl⟩, -,
    token, source, htoken, hinstance⟩, -, -, -, -⟩ :=
      start_eq_ok_iff.mp hstart
  have hid : view.leaseId = lease.id := by rw [hgrants.shown]
  have hremaining := hgrants.remaining
    (le_of_grantEvents_sublist hclock hword)
  rw [httl] at hremaining
  exact
    { allowed := ⟨path, _, asked, ucred, hpath, hpolicy,
        agentd.server.handler.policy.wellFormed, hasked, hshown⟩
      issuer := ⟨token, source, htoken, by
        rw [hid, issuer_of_word hruns hword, hinstance]⟩
      remaining := ⟨digits, secs, hdigits, hsecs, hremaining⟩ }

/-- A lease which a client of a started daemon is granted, while the other
clients do whatever they do, is accounted for in full. -/
theorem start_grants_earned (hstart : start text display env = .ok agentd)
    (hruns : agentd.server.Runs actions daemon)
    (hclock : NondecreasingClock daemon.agent)
    (hended : daemon.services[i]? = some (.ended reception call served))
    (hover : ExchangedOver agentd.server.codec client reception served framed)
    (hderived : DerivedOnLinux debug host peercred reception)
    (hresult : client.result agentd.server.codec = .ok (.leaseGranted view)) :
    EarnedGrant text debug env host peercred client.request view := by
  obtain ⟨n, current, ucred, asked, now, later, lease, event, -, -, hasked,
    hshown, hgrants, hword⟩ :=
      hruns.granted_peer_was_shown hended hover hderived hresult
  exact .of_shown hstart hruns hclock hasked hshown hgrants hword

end Grant

/-! ## A daemon from its first file to its first lease -/

/-- A text of which the parser knows these documents. -/
def knowingAll (documents : List JsonValue) : JsonText where
  float bits := Nat.toDigits 10 bits.toNat
  parse bytes := documents.find? fun document =>
    bytes = TextLines.encode
      (compact (fun bits => Nat.toDigits 10 bits.toNat) document)
  errorText _ := "expected value"

theorem reads_knowingAll_cons (document : JsonValue)
    (others : List JsonValue) :
    (knowingAll (document :: others)).Reads document := by
  simp [JsonText.Reads, JsonText.print, knowingAll]

def bootView : LeaseView :=
  ⟨⟨⟨"agent-pid-9-start-4"⟩, 0⟩, ⟨59999999999, by decide⟩⟩

def bootMessage : Response := .current ⟨some ⟨5⟩, .leaseGranted bootView⟩

def renewalView : LeaseView :=
  ⟨⟨⟨"agent-pid-9-start-4"⟩, 1⟩, ⟨59999999999, by decide⟩⟩

def renewalAsked : Request := .current ⟨⟨6⟩, sampleLeaseRequest⟩

def renewalMessage : Response :=
  .current ⟨some ⟨6⟩, .leaseGranted renewalView⟩

def bootText : JsonText :=
  knowingAll
    [versionedJson policyDocumentJson (.current samplePolicy.document),
      requestJson askedMessage, responseJson bootMessage,
      requestJson renewalAsked, responseJson renewalMessage]

def bootDisplay : Display := ⟨String.ofList, fun _ => ""⟩

def bootEnvironment : Environment where
  varOs name := ([("ELTANIN_AGENT_SOCKET_MODE", "0o660"),
    ("ELTANIN_AGENT_POLICY", "/etc/eltanin/policy.json"),
    ("ELTANIN_AGENT_LEASE_TTL_SECS", "60")].lookup name).map fun value =>
      TextLines.encode value.toList
  readFile _ := .ok (savedPolicy bootText samplePolicy)
  openAuditLog _ := .ok ()
  processId := 9
  processStart := .present ⟨4⟩ .kernelObserved

def bootAgentd : Agentd where
  config := ⟨AgentConfig.defaultSocketPath, 0o660⟩
  server := ⟨defaultServerConfig, .ofJson bootText,
    ⟨⟨"agent-pid-9-start-4"⟩, samplePolicy,
      ⟨Duration.fromSecs 60, 1024, by decide⟩⟩⟩
  auditLog := none
  seeded := [sampleResource]

theorem start_bootEnvironment :
    start bootText bootDisplay bootEnvironment = .ok bootAgentd := by
  refine start_eq_ok_iff.mpr ⟨⟨?_, ?_, rfl, ?_⟩, ⟨?_, ?_, ?_⟩, rfl, rfl, ?_⟩
  · refine ⟨"/etc/eltanin/policy.json".toList, by decide +kernel, ?_⟩
    exact loadPolicy_eq_ok_iff.mp
      (loadPolicy_savedPolicy (reads_knowingAll_cons _ _))
  · exact ⟨['6', '0'], 60, by decide +kernel, by decide +kernel, rfl⟩
  · exact ⟨⟨4⟩, .kernelObserved, rfl, by decide +kernel⟩
  · exact ⟨['0', 'o', '6', '6', '0'], by decide +kernel, by decide +kernel⟩
  · decide +kernel
  · decide +kernel
  · decide +kernel

def bootProc : Proc where
  stat _ := .ok (TextLines.encode
    "7 (w) S 0 0 0 0 0 0 0 0 0 0 0 0 0 0 0 0 0 0 5 0".toList)
  exe _ := .ok "/usr/bin/w"
  status _ := .ok (TextLines.encode
    "Uid:\t1000\t1000\t1000\t1000\nGid:\t100\t100\t100\t100\n".toList)
  cgroup _ := .ok (TextLines.encode "0::user.slice\n".toList)

def bootCred : UCred := ⟨7, by decide, 1000, 100⟩

def bootPeer : PeerContext where
  credential := ⟨7, 1000, 100⟩
  consistency := .consistent
  observed :=
    { workload :=
        { pid := 7
          processStart := .present ⟨5⟩ .kernelObserved
          uid := .present 1000 .kernelObserved
          gid := .present 100 .kernelObserved
          executablePath := .present "/usr/bin/w" .kernelObserved
          executableHash := Linux.executableHash
          ancestry := [] }
      cgroupPath := .present "user.slice" .kernelObserved
      namespaceHint := .unsupported
      containerHint := .unsupported
      sessionOrigin := .unsupported }

theorem collectPeerContext_bootProc :
    collectPeerContext String.ofList (fun _ => bootProc) (.ok bootCred) =
      .ok bootPeer := by
  decide +kernel

def bootReception : Reception where
  timeoutsSet := true
  peer := some bootPeer
  stream := [.chunk (wireFrame
    (bootAgentd.server.codec.printRequest askedMessage))]

/-- One connection is accepted and served, and `run` goes on. -/
def bootActions : List DaemonAction :=
  acceptActions 0 ++
    [.receive 0 (.returned bootReception), .handle 0 (.issue ⟨0⟩),
      .handle 0 (.enforce (.returned (.ok .allowed))),
      .handle 0 (.readClock ⟨1⟩), .handle 0 .settle, .handle 0 .record,
      .reply 0]

def bootDaemon : Daemon :=
  bootAgentd.server.finalState bootActions (by decide +kernel)

theorem runs_bootDaemon : bootAgentd.server.Runs bootActions bootDaemon :=
  AgentServer.runs_finalState _

def bootServed : Served where
  dispatched := some (sampleLeaseRequest, bootPeer)
  written := .returned (some (bootMessage,
    wireFrame (bootAgentd.server.codec.printResponse bootMessage)))
  unread := []

theorem getElem?_bootDaemon :
    bootDaemon.services[0]? =
      some (.ended bootReception (some 0) bootServed) := by
  decide +kernel

def bootClient : Client where
  requestId := ⟨5⟩
  request := sampleLeaseRequest
  transport := ⟨Cli.defaultSocketPath, .ok (), .ok (), .ok (), [.chunk
    (wireFrame (bootAgentd.server.codec.printResponse bootMessage))]⟩

theorem exchangedOver_bootServed :
    ExchangedOver bootAgentd.server.codec bootClient bootReception bootServed
      (wireFrame (bootAgentd.server.codec.printRequest askedMessage)) :=
  .of_whole (by decide +kernel) rfl rfl rfl
    ⟨by decide +kernel, by decide +kernel⟩
    ⟨by decide +kernel, by decide +kernel⟩

theorem nondecreasingClock_bootDaemon :
    NondecreasingClock bootDaemon.agent := by
  decide +kernel

theorem derivedOnLinux_bootReception :
    DerivedOnLinux String.ofList (fun _ => bootProc) (.ok bootCred)
      bootReception := by
  rw [DerivedOnLinux, collectPeerContext_bootProc]
  rfl

theorem result_bootClient :
    bootClient.result bootAgentd.server.codec =
      .ok (.leaseGranted bootView) := by
  decide +kernel

theorem bootClient_granted_earned :
    EarnedGrant bootText String.ofList bootEnvironment (fun _ => bootProc)
      (.ok bootCred) sampleLeaseRequest bootView :=
  start_grants_earned start_bootEnvironment runs_bootDaemon
    nondecreasingClock_bootDaemon getElem?_bootDaemon
    exchangedOver_bootServed derivedOnLinux_bootReception result_bootClient

end Eltanin.Agent
