import Eltanin.AgentdGrants
import Eltanin.LaunchObligations
import Eltanin.ProfileModel

/-!
# A launch among the clients of the agent

`eltanin run` from its arguments and its profile to a workload, while the agent
which it talks to serves other clients.  A launch asks the agent only for what
its profile says, and a lease it holds at any time is one which this agent has
granted to it over one of its own connections, as the policy allows on what
was observed of that connection.
-/

namespace Eltanin.Cli

open Json Eltanin.Core Protocol TextLines PartialExecution LabelledRun

/-- What the launch is told about its profile. -/
def loadedRequest (text : JsonText) (display : PathDisplay)
    (host : Surroundings) (name : ProfileName) : Except String LeaseRequest :=
  match loadProfile text host name with
  | .error error => .error (error.text display)
  | .ok profile => .ok profile.request

namespace Launch

/-- The request which the launch is about, while it may ask for a lease. -/
def request? : Launch → Option LeaseRequest
  | .establishing request => some request
  | .connecting request => some request
  | .requesting request => some request
  | .awaitingGrant request _ => some request
  | .installing request _ _ => some request
  | .spawning request _ _ => some request
  | .supervising request _ _ => some request
  | _ => none

end Launch

/-! ## One step -/

section Step

variable {named : Int32 → Bool} {answer : LaunchAnswer}
  {events : List LaunchEvent} {lease : LeaseView} {observedAt : Instant}

theorem mem_grants_of_granted
    (hmem : .granted lease observedAt ∈ events) :
    ⟨lease, observedAt⟩ ∈ grants events :=
  List.mem_filterMap.mpr ⟨_, hmem, rfl⟩

theorem grantIn_of_mem {attemptedAt : Option Instant} {grant : Grant}
    (hmem : grant ∈ grantIn attemptedAt answer) :
    attemptedAt.isSome ∧
      answer = .replied (.ok (.leaseGranted grant.lease)) := by
  unfold grantIn at hmem
  split at hmem
  next found =>
    obtain ⟨reading, hreading, rfl⟩ := List.mem_map.mp hmem
    exact ⟨Option.isSome_of_mem (Option.mem_toList.mp hreading), rfl⟩
  next => simp at hmem

namespace Launch

variable {code next : Launch}

theorem request?_of_asks {request : LeaseRequest}
    (hasks : code.asks = some (.requestLease request)) :
    code.request? = some request := by
  have hrelease : ∀ (leaseId : LeaseId) (release : Release),
      release.asks leaseId ≠ some (.requestLease request) := by
    intro leaseId release
    cases release <;> simp [Release.asks]
  cases code with
  | awaitingGrant found grantObservedAt =>
      simpa [asks, request?] using hasks
  | supervising found child supervision =>
      cases supervision with
      | renewing renewal attemptedAt =>
          simpa [asks, Supervision.asks, request?] using hasks
      | replacing renewal oldLeaseId release =>
          exact absurd hasks (hrelease oldLeaseId release)
      | releasing leaseId release outcome =>
          exact absurd hasks (hrelease leaseId release)
      | _ => simp [asks, Supervision.asks] at hasks
  | releasing leaseId release outcome =>
      exact absurd hasks (hrelease leaseId release)
  | _ => simp [asks] at hasks

/-- A lease is granted to the launch by the reply to its own request. -/
theorem granted_of_act
    (hact : code.act named answer = some (next, events))
    (hmem : .granted lease observedAt ∈ events) :
    ∃ request, code.request? = some request ∧
      code.asks = some (.requestLease request) ∧
      answer = .replied (.ok (.leaseGranted lease)) := by
  have hgrant := mem_grants_of_granted hmem
  rw [grants_of_act hact] at hgrant
  obtain ⟨hattempted, hanswer⟩ := grantIn_of_mem hgrant
  obtain ⟨request, hasks⟩ := asks_eq_requestLease_iff.mpr hattempted
  exact ⟨request, request?_of_asks hasks, hasks, hanswer⟩

/-- The request of a launch is the one its profile has given it. -/
theorem request?_of_act {request : LeaseRequest}
    (hact : code.act named answer = some (next, events))
    (hnext : next.request? = some request) :
    code.request? = some request ∨ answer = .profile (.ok request) := by
  unfold Launch.act at hact
  split at hact
  case h_1 found =>
    cases hact
    rw [request?, Option.some.injEq] at hnext
    exact .inr (by rw [hnext])
  case h_5 found socketPath =>
    cases hact
    cases hpath : fromEnv socketPath with
    | error error => simp [connected, hpath, request?] at hnext
    | ok path => simpa [connected, hpath, request?] using hnext
  case h_7 found grantObservedAt reply =>
    have hcode : (initiallyGranted found grantObservedAt
        (initialLease reply)).1 = next :=
      congrArg Prod.fst (Option.some.inj hact)
    rw [← hcode] at hnext
    cases hlease : initialLease reply with
    | error cause => simp [initiallyGranted, hlease, request?] at hnext
    | ok lease => simpa [initiallyGranted, hlease, request?] using hnext
  case h_12 found child supervision =>
    obtain ⟨⟨reached, done⟩, -, heq⟩ := Option.map_eq_some_iff.mp hact
    have hcode : (supervised found child (reached, done)).1 = next :=
      congrArg Prod.fst heq
    rw [← hcode] at hnext
    cases reached <;> simp_all [supervised, request?]
  case h_13 leaseId release outcome =>
    obtain ⟨⟨reached, done⟩, -, heq⟩ := Option.map_eq_some_iff.mp hact
    have hcode : (released leaseId outcome (reached, done)).1 = next :=
      congrArg Prod.fst heq
    rw [← hcode] at hnext
    cases reached <;> simp [released, request?] at hnext
  case h_16 => contradiction
  all_goals
    cases hact
    simp_all [request?]

/-- A lease is asked for by the request of the launch. -/
theorem requested_of_act {request : LeaseRequest} {attemptedAt : Instant}
    (hact : code.act named answer = some (next, events))
    (hmem : .requested request attemptedAt ∈ events) :
    code.request? = some request := by
  unfold Launch.act at hact
  split at hact
  case h_6 found grantObservedAt =>
    cases hact
    simp only [List.mem_singleton, LaunchEvent.requested.injEq] at hmem
    rw [request?, hmem.1]
  case h_7 found grantObservedAt reply =>
    have hevents : (initiallyGranted found grantObservedAt
        (initialLease reply)).2 = events :=
      congrArg Prod.snd (Option.some.inj hact)
    rw [← hevents] at hmem
    cases hlease : initialLease reply <;>
      simp [hlease, initiallyGranted] at hmem
  case h_12 found child supervision =>
    obtain ⟨⟨reached, done⟩, hsupervision, heq⟩ :=
      Option.map_eq_some_iff.mp hact
    have hevents := (holding_supervised found child (reached, done)).2
    rw [heq] at hevents
    rw [show events = done from hevents] at hmem
    rcases Supervision.act_cases hsupervision with
      ⟨renewal, signals, -, -, -, hdone⟩ | ⟨renewal, now, -, -, -, hdone⟩
        | ⟨-, hpoll⟩
    · rw [hdone] at hmem
      obtain ⟨signal, -, hsignal⟩ := List.mem_flatMap.mp hmem
      unfold forwardToChild at hsignal
      split at hsignal
      · simp at hsignal
      · split at hsignal <;> simp at hsignal
    · rw [hdone, List.mem_singleton, LaunchEvent.requested.injEq] at hmem
      rw [request?, hmem.1]
    · have hnot := hpoll _ hmem
      contradiction
  case h_13 leaseId release outcome =>
    obtain ⟨⟨reached, done⟩, hrelease, heq⟩ := Option.map_eq_some_iff.mp hact
    have hmem : .requested request attemptedAt ∈ done := by
      cases reached <;> cases heq <;> exact hmem
    rcases Release.events_of_act hrelease _ hmem with ⟨reply, heq⟩ | heq
    · contradiction
    · contradiction
  case h_16 => contradiction
  all_goals
    cases hact
    simp at hmem

end Launch

end Step

/-! ## A whole launch -/

/-- The launch is told what its profile says, and a reply which it gets is the
one which the agent has given to the request it has just made.  Nothing is
said of an exchange which fails. -/
structure Truthful (loaded : Except String LeaseRequest)
    (serves : ClientRequest → AgentResponse → Prop)
    (run : LaunchRun) (answer : LaunchAnswer) : Prop where
  profile : ∀ found, answer = .profile found → found = loaded
  replied : ∀ response, answer = .replied (.ok response) →
    ∃ request, run.code.asks = some request ∧ serves request response

section Launched

variable {named : Int32 → Bool} {clock : Instant} {final : LaunchRun}
  {answers : List LaunchAnswer} {loaded : Except String LeaseRequest}
  {serves : ClientRequest → AgentResponse → Prop}

/-- Where the launch hears nothing of its profile or from the agent, it is not
misled. -/
theorem truthful_of_silent {run : LaunchRun}
    (hsilent : ∀ answer ∈ answers, (∀ found, answer ≠ .profile found) ∧
      ∀ response, answer ≠ .replied (.ok response)) :
    Guarded (Truthful loaded serves) (LaunchRun.step named) run answers := by
  apply guarded_of_forall
  intro answer hmem state
  have hquiet := hsilent answer hmem
  exact ⟨fun found heq => absurd heq (hquiet.1 found),
    fun response heq => absurd heq (hquiet.2 response)⟩

theorem truthful_replied {run : LaunchRun} {request : ClientRequest}
    {response : AgentResponse} (hasks : run.code.asks = some request)
    (hserves : serves request response) :
    Truthful loaded serves run (.replied (.ok response)) where
  profile := nofun
  replied other heq := by
    rw [LaunchAnswer.replied.injEq, Except.ok.injEq] at heq
    exact ⟨request, hasks, heq ▸ hserves⟩

/-- Whatever a launch asks for and is granted is what its profile says. -/
structure LaunchRun.KeepsTo (loaded : Except String LeaseRequest)
    (serves : ClientRequest → AgentResponse → Prop)
    (run : LaunchRun) : Prop where
  request : ∀ request, run.code.request? = some request →
    loaded = .ok request
  requested : ∀ request attemptedAt,
    .requested request attemptedAt ∈ run.trace → loaded = .ok request
  granted : ∀ lease observedAt, .granted lease observedAt ∈ run.trace →
    ∃ request, loaded = .ok request ∧
      serves (.requestLease request) (.leaseGranted lease)

theorem LaunchRun.KeepsTo.step {run next : LaunchRun} {answer : LaunchAnswer}
    (hkeeps : run.KeepsTo loaded serves)
    (htruthful : Truthful loaded serves run answer)
    (hstep : run.step named answer = some next) :
    next.KeepsTo loaded serves := by
  obtain ⟨events, hact, htrace⟩ := LaunchRun.step_cases hstep
  refine ⟨?_, ?_, ?_⟩
  · intro request hnext
    rcases Launch.request?_of_act hact hnext with hcode | hprofile
    · exact hkeeps.request request hcode
    · exact (htruthful.profile _ hprofile).symm
  · intro request attemptedAt hmem
    rw [htrace, List.mem_append] at hmem
    rcases hmem with hbefore | hnow
    · exact hkeeps.requested request attemptedAt hbefore
    · exact hkeeps.request request (Launch.requested_of_act hact hnow)
  · intro lease observedAt hmem
    rw [htrace, List.mem_append] at hmem
    rcases hmem with hbefore | hnow
    · exact hkeeps.granted lease observedAt hbefore
    · obtain ⟨request, hrequest, hasks, hanswer⟩ :=
        Launch.granted_of_act hact hnow
      obtain ⟨asked, hasked, hserves⟩ := htruthful.replied _ hanswer
      rw [hasks, Option.some.injEq] at hasked
      exact ⟨request, hkeeps.request request hrequest, hasked ▸ hserves⟩

theorem LaunchRun.keepsTo
    (htruthful : Guarded (Truthful loaded serves) (LaunchRun.step named)
      (.called clock) answers)
    (hrun : execute (LaunchRun.step named) (.called clock) answers =
      some final) :
    final.KeepsTo loaded serves := by
  apply execute_guarded_invariant (Truthful loaded serves)
    (LaunchRun.KeepsTo loaded serves) _ _ htruthful hrun
  · intro run answer next hkeeps htrue hstep
    exact hkeeps.step htrue hstep
  · exact ⟨nofun, nofun, nofun⟩

/-- A workload is spawned by a launch which has been granted a lease. -/
theorem LaunchRun.granted_before_spawned {before after : List LaunchEvent}
    {child : ChildPid}
    (hrun : execute (LaunchRun.step named) (.called clock) answers =
      some final)
    (htrace : final.trace = before ++ .spawned child :: after) :
    ∃ lease observedAt, .granted lease observedAt ∈ before := by
  obtain ⟨standing, hpermitted, -⟩ := LaunchRun.exists_run hrun
  rw [htrace] at hpermitted
  obtain ⟨grant, hgrant⟩ :=
    List.exists_mem_of_ne_nil _ (grants_ne_nil_of_spawned hpermitted)
  obtain ⟨event, hmem, hevent⟩ := List.mem_filterMap.mp hgrant
  cases event <;> first | contradiction | exact ⟨_, _, hmem⟩

end Launched

end Eltanin.Cli

namespace Eltanin.Agent

open Json Eltanin.Core Protocol TextLines PartialExecution Eltanin.Cli
open Eltanin.Linux (Proc UCred)

/-! ## A launch with a running daemon -/

/-- A connection of the daemon, from what Linux shows of the peer at its other
end to the reply which that peer has read. -/
structure Exchanged (debug : List Char → String) (codec : ProtocolCodec)
    (daemon : Daemon) (request : ClientRequest) (response : AgentResponse)
    (host : ℕ → Proc) (peercred : Except String UCred) (i : ℕ)
    (client : Client) (reception : Reception) : Prop where
  ended : ∃ call served framed,
    daemon.services[i]? = some (.ended reception call served) ∧
      ExchangedOver codec client reception served framed
  derived : DerivedOnLinux debug host peercred reception
  request : client.request = request
  result : client.result codec = .ok response

/-- The reply which a client of this daemon has been given to a request. -/
def ServedBy (debug : List Char → String) (codec : ProtocolCodec)
    (daemon : Daemon) (request : ClientRequest) (response : AgentResponse) :
    Prop :=
  ∃ host peercred i client reception,
    Exchanged debug codec daemon request response host peercred i client
      reception

/-- The profile under this name, in the file where it is looked for. -/
def FoundProfile (text : JsonText) (host : Surroundings) (name : ProfileName)
    (profile : ProfileDocument) : Prop :=
  ∃ dir bytes, profileDir host = .ok dir ∧
    host.readFile (profilePath dir name) = .ok bytes ∧
    HoldsProfile text bytes (.current profile)

/-- What a launch may rely on and be held to, from its profile to its last
lease.  Each lease has come over one connection of the daemon, and is earned
by what Linux has shown of the peer of that connection. -/
structure EarnedLaunch (text own : JsonText) (debug : List Char → String)
    (env : Environment) (codec : ProtocolCodec) (daemon : Daemon)
    (host : Surroundings) (name : ProfileName) (trace : List LaunchEvent) :
    Prop where
  asked : ∀ request attemptedAt, .requested request attemptedAt ∈ trace →
    ∃ profile, FoundProfile own host name profile ∧
      request = profile.request
  earned : ∀ lease observedAt, .granted lease observedAt ∈ trace →
    ∃ profile proc peercred i client reception,
      FoundProfile own host name profile ∧
      Exchanged debug codec daemon (.requestLease profile.request)
        (.leaseGranted lease) proc peercred i client reception ∧
      EarnedGrant text debug env proc peercred
        (.requestLease profile.request) lease
  spawned : ∀ before child after, trace = before ++ .spawned child :: after →
    ∃ lease observedAt, .granted lease observedAt ∈ before

section Launched

variable {text own : JsonText} {display : Display} {shown : PathDisplay}
  {debug : List Char → String} {env : Environment} {agentd : Agentd}
  {actions : List DaemonAction} {daemon : Daemon} {host : Surroundings}
  {name : ProfileName} {named : Int32 → Bool} {clock : Instant}
  {answers : List LaunchAnswer} {final : LaunchRun}

theorem foundProfile_of_loadedRequest {request : LeaseRequest}
    (hloaded : loadedRequest own shown host name = .ok request) :
    ∃ profile, FoundProfile own host name profile ∧
      request = profile.request := by
  unfold loadedRequest at hloaded
  split at hloaded
  next => contradiction
  next profile hload =>
    rw [Except.ok.injEq] at hloaded
    refine ⟨profile, ?_, hloaded.symm⟩
    unfold loadProfile at hload
    cases hdir : profileDir host with
    | error error =>
        rw [hdir] at hload
        contradiction
    | ok dir =>
        rw [hdir] at hload
        obtain ⟨bytes, hread, hholds⟩ :=
          loadProfileFromDir_eq_ok_iff.mp hload
        exact ⟨dir, bytes, hdir, hread, hholds⟩

/-- A launch whose agent is a started daemon spawns its workload under leases
which this daemon has granted for the profile, whatever its other clients
do. -/
theorem launched_under_earned_leases
    (hstart : start text display env = .ok agentd)
    (hruns : agentd.server.Runs actions daemon)
    (hclock : NondecreasingClock daemon.agent)
    (htruthful : Guarded
      (Truthful (loadedRequest own shown host name)
        (ServedBy debug agentd.server.codec daemon))
      (LaunchRun.step named) (.called clock) answers)
    (hlaunch : execute (LaunchRun.step named) (.called clock) answers =
      some final) :
    EarnedLaunch text own debug env agentd.server.codec daemon host name
      final.trace := by
  have hkeeps := LaunchRun.keepsTo htruthful hlaunch
  refine ⟨?_, ?_, ?_⟩
  · intro request attemptedAt hmem
    exact foundProfile_of_loadedRequest
      (hkeeps.requested request attemptedAt hmem)
  · intro lease observedAt hmem
    obtain ⟨request, hloaded, proc, peercred, i, client, reception,
      hexchanged⟩ := hkeeps.granted lease observedAt hmem
    obtain ⟨profile, hprofile, rfl⟩ := foundProfile_of_loadedRequest hloaded
    obtain ⟨call, served, framed, hended, hover⟩ := hexchanged.ended
    obtain ⟨n, current, ucred, asked, now, later, granted, event, -, -,
      hasked, hshown, hgrants, hword⟩ :=
        hruns.granted_peer_was_shown hended hover hexchanged.derived
          hexchanged.result
    rw [hexchanged.request] at hasked
    exact ⟨profile, proc, peercred, i, client, reception, hprofile,
      hexchanged,
      .of_shown hstart hruns hclock hasked hshown hgrants hword⟩
  · intro before child after htrace
    exact LaunchRun.granted_before_spawned hlaunch htrace

end Launched

/-! ## A launch which renews its lease with the booted daemon -/

def launchProfile : ProfileDocument := ⟨sampleResource, .compute⟩

def launchText : JsonText :=
  knowingAll [versionedJson profileDocumentJson (.current launchProfile)]

def launchHost : Surroundings where
  varOs name := ([("ELTANIN_PROFILE_DIR", "/etc/eltanin")].lookup name).map
    fun value => encode value.toList
  readFile _ := .ok (encode (launchText.print
    (versionedJson profileDocumentJson (.current launchProfile))))

def launchName : ProfileName where
  text := ['g', 'p', 'u']
  nonempty := by decide
  bounded := by decide
  no_slash := by decide
  no_traversal := by decide
  no_control := by decide

def launchShown : PathDisplay := ⟨String.ofList, fun _ => ""⟩

theorem loadedRequest_launchHost :
    loadedRequest launchText launchShown launchHost launchName =
      .ok launchProfile.request := by
  decide +kernel

def renewalReception : Reception where
  timeoutsSet := true
  peer := some bootPeer
  stream := [.chunk (wireFrame
    (bootAgentd.server.codec.printRequest renewalAsked))]

/-- A second connection of the same peer, when half of its first lease is
over. -/
def renewalActions : List DaemonAction :=
  bootActions ++ acceptActions 1 ++
    [.receive 1 (.returned renewalReception), .handle 1 (.issue ⟨30000000000⟩),
      .handle 1 (.enforce (.returned (.ok .allowed))),
      .handle 1 (.readClock ⟨30000000001⟩), .handle 1 .settle,
      .handle 1 .record, .reply 1]

def renewalDaemon : Daemon :=
  bootAgentd.server.finalState renewalActions (by decide +kernel)

theorem runs_renewalDaemon :
    bootAgentd.server.Runs renewalActions renewalDaemon :=
  AgentServer.runs_finalState _

theorem nondecreasingClock_renewalDaemon :
    NondecreasingClock renewalDaemon.agent := by
  decide +kernel

def renewalServed : Served where
  dispatched := some (sampleLeaseRequest, bootPeer)
  written := .returned (some (renewalMessage,
    wireFrame (bootAgentd.server.codec.printResponse renewalMessage)))
  unread := []

def renewalClient : Client where
  requestId := ⟨6⟩
  request := sampleLeaseRequest
  transport := ⟨Cli.defaultSocketPath, .ok (), .ok (), .ok (), [.chunk
    (wireFrame (bootAgentd.server.codec.printResponse renewalMessage))]⟩

theorem exchangedOver_renewalServed :
    ExchangedOver bootAgentd.server.codec renewalClient renewalReception
      renewalServed
      (wireFrame (bootAgentd.server.codec.printRequest renewalAsked)) :=
  .of_whole (by decide +kernel) rfl rfl rfl
    ⟨by decide +kernel, by decide +kernel⟩
    ⟨by decide +kernel, by decide +kernel⟩

theorem derivedOnLinux_renewalReception :
    DerivedOnLinux String.ofList (fun _ => bootProc) (.ok bootCred)
      renewalReception := by
  rw [DerivedOnLinux, collectPeerContext_bootProc]
  rfl

theorem servedBy_granted :
    ServedBy String.ofList bootAgentd.server.codec renewalDaemon
      sampleLeaseRequest (.leaseGranted bootView) := by
  refine ⟨fun _ => bootProc, .ok bootCred, 0, bootClient, bootReception, ?_⟩
  constructor
  case ended =>
    exact ⟨some 0, bootServed, _, by decide +kernel, exchangedOver_bootServed⟩
  case derived => exact derivedOnLinux_bootReception
  case request => rfl
  case result => exact result_bootClient

theorem servedBy_renewed :
    ServedBy String.ofList bootAgentd.server.codec renewalDaemon
      sampleLeaseRequest (.leaseGranted renewalView) := by
  refine ⟨fun _ => bootProc, .ok bootCred, 1, renewalClient,
    renewalReception, ?_⟩
  constructor
  case ended =>
    exact ⟨some 1, renewalServed, _, by decide +kernel,
      exchangedOver_renewalServed⟩
  case derived => exact derivedOnLinux_renewalReception
  case request => rfl
  case result => decide +kernel

def launchReading : Instant := Lapse.sampleReading 7

def renewalReading : Instant := Lapse.sampleReading 40

/-- What the launch is told before the agent grants it a lease. -/
def launchBefore : List LaunchAnswer :=
  [.profile (.ok launchProfile.request), .context (.ok ()),
    .environment none, .os (.now launchReading)]

/-- What it is told from the grant to the reply to its renewal. -/
def launchBetween : List LaunchAnswer :=
  [.installed (.ok ()), .spawned (.ok Lapse.samplePid), .os (.waited none),
    .drained [], .os (.now renewalReading), .os (.now renewalReading)]

/-- The old lease cannot be given back. -/
def launchAfter : List LaunchAnswer :=
  [.replied (.error (.io "connection reset"))]

def launchAnswers : List LaunchAnswer :=
  launchBefore ++ .replied (.ok (.leaseGranted bootView)) ::
    (launchBetween ++ .replied (.ok (.leaseGranted renewalView)) ::
      launchAfter)

def launchTrace : List LaunchEvent :=
  [.established, .requested launchProfile.request launchReading,
    .granted bootView launchReading, .spawned Lapse.samplePid,
    .requested launchProfile.request renewalReading,
    .granted renewalView renewalReading, .releasing bootView.leaseId,
    .releaseSent bootView.leaseId (.error (.io "connection reset"))]

def launchAwaiting : LaunchRun where
  code := .awaitingGrant launchProfile.request launchReading
  clock := launchReading
  trace := [.established, .requested launchProfile.request launchReading]

def launchGranted : LaunchRun where
  code := .installing launchProfile.request bootView launchReading
  clock := launchReading
  trace := [.established, .requested launchProfile.request launchReading,
    .granted bootView launchReading]

def launchRenewing : LaunchRun where
  code := .supervising launchProfile.request Lapse.samplePid
    (.renewing (.adopt bootView launchReading) renewalReading)
  clock := renewalReading
  trace := [.established, .requested launchProfile.request launchReading,
    .granted bootView launchReading, .spawned Lapse.samplePid,
    .requested launchProfile.request renewalReading]

def launchRenewed : LaunchRun where
  code := .supervising launchProfile.request Lapse.samplePid
    (.replacing (.adopt renewalView renewalReading) bootView.leaseId
      (.backingOff 0))
  clock := renewalReading
  trace := launchTrace

theorem execute_launchBefore :
    execute (LaunchRun.step fun _ => true) (.called launchReading)
      launchBefore = some launchAwaiting := rfl

theorem execute_launchBetween :
    execute (LaunchRun.step fun _ => true) launchGranted launchBetween =
      some launchRenewing := rfl

theorem truthful_launch :
    Guarded (Truthful (loadedRequest launchText launchShown launchHost
        launchName) (ServedBy String.ofList bootAgentd.server.codec
          renewalDaemon))
      (LaunchRun.step fun _ => true) (.called launchReading)
      launchAnswers := by
  apply Guarded.append
  · refine ⟨⟨?_, nofun⟩, fun _ _ => truthful_of_silent (by simp)⟩
    intro found heq
    rw [loadedRequest_launchHost]
    exact (LaunchAnswer.profile.inj heq).symm
  · intro awaiting hbefore
    rw [execute_launchBefore, Option.some.injEq] at hbefore
    subst hbefore
    refine ⟨truthful_replied rfl servedBy_granted, ?_⟩
    intro granted hgranted
    have hgranted : launchGranted = granted := Option.some.inj hgranted
    subst hgranted
    apply Guarded.append
    · exact truthful_of_silent (by simp [launchBetween])
    · intro renewing hbetween
      rw [execute_launchBetween, Option.some.injEq] at hbetween
      subst hbetween
      refine ⟨truthful_replied rfl servedBy_renewed, ?_⟩
      intro replacing _
      exact truthful_of_silent (by simp [launchAfter])

theorem execute_launchAnswers :
    execute (LaunchRun.step fun _ => true) (.called launchReading)
      launchAnswers = some launchRenewed := rfl

theorem launchRenewed_under_earned_leases :
    EarnedLaunch bootText launchText String.ofList bootEnvironment
      bootAgentd.server.codec renewalDaemon launchHost launchName
      launchTrace :=
  launched_under_earned_leases start_bootEnvironment runs_renewalDaemon
    nondecreasingClock_renewalDaemon truthful_launch execute_launchAnswers

end Eltanin.Agent
