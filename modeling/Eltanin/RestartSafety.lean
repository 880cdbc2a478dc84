import Eltanin.AgentdGrants
import Eltanin.AuthorizationConsistency

/-!
# Leases do not survive a restart

A lease is named after the start of the agent which has issued it.  An agent
which is started later, or beside it, is another process, and a release of
such a lease comes to nothing there: it is refused, the backend is not
called, and no lease of that agent goes but those whose time is over.
-/

namespace Eltanin.Agent

open Json Eltanin.Core Backend Protocol InterleavedSessions
  AuthorizationHandler

/-! ## The releases of one call -/

def PrunesOnly (events : List Happening) : Prop :=
  ∀ event ∈ events, ∃ now, event = .pruned now

/-- Where a release can be: refused with nothing but readings of the clock, or
past the removal of its lease. -/
inductive ReleaseProgress (id : LeaseId) : Phase → List Happening → Prop
  | arrived : ReleaseProgress id .arrived []
  | refused {conclusion : Conclusion} {events : List Happening}
      (hresponse : conclusion.response = .leaseReleased .refused)
      (hprunes : PrunesOnly events) :
      ReleaseProgress id (.concluded conclusion) events
  | recorded {before : List Happening} {event : AuthorizationEvent}
      (hprunes : PrunesOnly before) :
      ReleaseProgress id (.answered (.leaseReleased .refused))
        (before ++ [.recorded event])
  | released {phase : Phase} {events : List Happening}
      (hreleased : .released id ∈ events) : ReleaseProgress id phase events

section Progress

variable {handler : AuthorizationHandler} {state next : LeaseState}
  {call : Call} {action : CallAction} {phase : Phase}
  {events new : List Happening} {id : LeaseId}

/-- The call has not been decided. -/
def Undecided (phase : Phase) : Prop :=
  (∃ lease remaining, phase = .timed lease remaining) ∨
    (∃ lease reply, phase = .enforced lease reply) ∨
    (∃ lease, phase = .issued lease) ∨ phase = .arrived

theorem Withdraws.undecided_phase {lease : ComputeLease}
    {outcome : AuthorizationOutcome}
    (hwithdraws : Withdraws lease phase outcome) :
    Undecided phase ∧ phase ≠ .arrived := by
  cases hwithdraws with
  | lapsed hzero => simp [Undecided]
  | refused hrefused => simp [Undecided]
  | failed => simp [Undecided]

/-- A release which has only just arrived is refused, or takes its lease. -/
theorem CallTransition.releaseProgress_of_arrived
    (htransition :
      CallTransition handler state call action next phase new)
    (hasked : call.request = .releaseLease ⟨id⟩)
    (hphase : call.phase = .arrived) :
    ReleaseProgress id phase new := by
  cases htransition with
  | releaseRefusedUnlocked harrived hrequest hpeer =>
      exact .refused rfl (by simp [PrunesOnly])
  | releaseRefused harrived hrequest hpeer hnot hrefused =>
      exact .refused hrefused (by simp [PrunesOnly])
  | released harrived hrequest hpeer hreleasable =>
      rw [hasked, ClientRequest.releaseLease.injEq] at hrequest
      rw [← hrequest]
      exact .released (by simp)
  | withdrawn hwithdraws =>
      exact (hwithdraws.undecided_phase.2 hphase).elim
  | status harrived hrequest => simp [hasked] at hrequest
  | requestRefused harrived hrequest => simp [hasked] at hrequest
  | issued harrived hrequest => simp [hasked] at hrequest
  | issueFailed harrived hrequest => simp [hasked] at hrequest
  | issuePanicked harrived hrequest => simp [hasked] at hrequest
  | enforced hissued => simp [hphase] at hissued
  | enforcePanicked hissued => simp [hphase] at hissued
  | timed henforced => simp [hphase] at henforced
  | granted htimed => simp [hphase] at htimed
  | recorded hconcluded => simp [hphase] at hconcluded

/-- A call which is decided is only recorded. -/
theorem CallTransition.undecided_or_recorded
    (htransition :
      CallTransition handler state call action next phase new) :
    Undecided call.phase ∨ ∃ conclusion event,
      call.phase = .concluded conclusion ∧
        phase = .answered conclusion.response ∧ new = [.recorded event] := by
  cases htransition with
  | recorded hconcluded => exact .inr ⟨_, _, hconcluded, rfl, rfl⟩
  | withdrawn hwithdraws => exact .inl hwithdraws.undecided_phase.1
  | timed henforced => exact .inl (.inr (.inl ⟨_, _, henforced⟩))
  | granted htimed => exact .inl (.inl ⟨_, _, htimed⟩)
  | enforced hissued => exact .inl (.inr (.inr (.inl ⟨_, hissued⟩)))
  | enforcePanicked hissued => exact .inl (.inr (.inr (.inl ⟨_, hissued⟩)))
  | status harrived => exact .inl (.inr (.inr (.inr harrived)))
  | requestRefused harrived => exact .inl (.inr (.inr (.inr harrived)))
  | issued harrived => exact .inl (.inr (.inr (.inr harrived)))
  | issueFailed harrived => exact .inl (.inr (.inr (.inr harrived)))
  | issuePanicked harrived => exact .inl (.inr (.inr (.inr harrived)))
  | releaseRefusedUnlocked harrived => exact .inl (.inr (.inr (.inr harrived)))
  | releaseRefused harrived => exact .inl (.inr (.inr (.inr harrived)))
  | released harrived => exact .inl (.inr (.inr (.inr harrived)))

/-- Every step of a release keeps it on its way. -/
theorem CallTransition.releaseProgress
    (htransition :
      CallTransition handler state call action next phase new)
    (hasked : call.request = .releaseLease ⟨id⟩)
    (hprogress : ReleaseProgress id call.phase events) :
    ReleaseProgress id phase (events ++ new) := by
  generalize hphase : call.phase = before at hprogress
  cases hprogress with
  | released hreleased =>
      exact .released (List.mem_append_left new hreleased)
  | arrived => exact htransition.releaseProgress_of_arrived hasked hphase
  | refused hresponse hprunes =>
      rcases htransition.undecided_or_recorded with hundecided
        | ⟨concluded, event, hconcluded, rfl, rfl⟩
      · simp [Undecided, hphase] at hundecided
      · rw [hphase, Phase.concluded.injEq] at hconcluded
        rw [← hconcluded, hresponse]
        exact .recorded hprunes
  | recorded hprunes =>
      rcases htransition.undecided_or_recorded with hundecided
        | ⟨concluded, event, hconcluded, -, -⟩
      · simp [Undecided, hphase] at hundecided
      · simp [hphase] at hconcluded

theorem releaseProgress_of_word {opening : PeerContext × ClientRequest}
    (hword : handler.program.Word opening call events)
    (hasked : call.request = .releaseLease ⟨id⟩) :
    ReleaseProgress id call.phase events := by
  induction hword with
  | start => exact .arrived
  | act _ hact ih =>
      obtain ⟨phase, rfl, htransition⟩ := reaches_of_act hact
      exact htransition.releaseProgress hasked (ih hasked)

/-- The call is refused, and does nothing but clear away what has expired and
record its event. -/
structure RefusedOnly (call : Call) (events : List Happening) : Prop where
  refused : ∀ response, call.response? = some response →
    response = .leaseReleased .refused
  untouched : ∀ event ∈ events, (∃ now, event = .pruned now) ∨
    ∃ recorded, event = .recorded recorded

theorem ReleaseProgress.refusedOnly
    (hprogress : ReleaseProgress id call.phase events)
    (hunreleased : .released id ∉ events) : RefusedOnly call events := by
  generalize hphase : call.phase = phase at hprogress
  cases hprogress with
  | released hreleased => exact (hunreleased hreleased).elim
  | arrived => exact ⟨by simp [Call.response?, hphase], by simp⟩
  | refused hresponse hprunes =>
      exact ⟨by simp [Call.response?, hphase, hresponse],
        fun event hmem => .inl (hprunes event hmem)⟩
  | recorded hprunes =>
      refine ⟨by simp [Call.response?, hphase], ?_⟩
      intro event hmem
      rcases List.mem_append.mp hmem with hbefore | hlast
      · exact .inl (hprunes event hbefore)
      · exact .inr ⟨_, List.mem_singleton.mp hlast⟩

end Progress

/-! ## Leases of another agent -/

theorem AuthorizationHandler.Runs.foreign_release_refused
    {handler : AuthorizationHandler} {actions : List AgentAction}
    {agent : AgentState} {i : ℕ} {call : Call} {id : LeaseId}
    (hruns : handler.Runs actions agent)
    (hcall : agent.sessions[i]? = some call)
    (hasked : call.request = .releaseLease ⟨id⟩)
    (hforeign : id.issuer ≠ handler.instanceId) :
    RefusedOnly call (agent.wordOf i) := by
  obtain ⟨opening, hword⟩ := (Program.traced_of_run hruns).2 i call hcall
  have hissuer := hruns.ledgerInvariant.issuer
  apply (releaseProgress_of_word hword hasked).refusedOnly
  intro hreleased
  rw [System.mem_wordOf_iff] at hreleased
  exact hforeign ((hissuer.released hreleased).1.trans hissuer.instanceId)

theorem AuthorizationHandler.Runs.not_stored_of_foreign
    {handler : AuthorizationHandler} {actions : List AgentAction}
    {agent : AgentState} {id : LeaseId}
    (hruns : handler.Runs actions agent)
    (hforeign : id.issuer ≠ handler.instanceId) :
    agent.shared.get id = none := by
  cases hstored : agent.shared.get id with
  | none => rfl
  | some lease =>
      have hlease := hruns.storedLease hstored
      have hsame := hlease.instanceId
      rw [hlease.keyed] at hsame
      exact (hforeign hsame).elim

/-- The two environments are of one start of one process. -/
def SameStart (env other : Environment) : Prop :=
  env.processId = other.processId ∧
    ∃ token, env.processStart.value = some token ∧
      other.processStart.value = some token

section Restart

variable {text other : JsonText} {display : Display}
  {env later : Environment} {agentd restarted : Agentd}
  {actions rerun : List DaemonAction} {daemon again : Daemon}
  {i j : ℕ} {granter call : Call} {view : LeaseView}

theorem instanceId_ne_of_start
    (hstart : start text display env = .ok agentd)
    (hrestart : start other display later = .ok restarted)
    (hdistinct : ¬SameStart env later) :
    agentd.server.handler.instanceId ≠
      restarted.server.handler.instanceId := by
  obtain ⟨token, source, htoken, hid⟩ :=
    (start_eq_ok_iff.mp hstart).1.instanceId
  obtain ⟨retoken, resource, hretoken, hreid⟩ :=
    (start_eq_ok_iff.mp hrestart).1.instanceId
  intro hsame
  rw [hid, hreid, IssuerInstanceId.mk.injEq] at hsame
  have htexts := congrArg String.toList hsame
  rw [String.toList_ofList, String.toList_ofList] at htexts
  obtain ⟨hpid, rfl⟩ := instanceText_injective htexts
  exact hdistinct ⟨hpid, token, by rw [htoken]; rfl, by rw [hretoken]; rfl⟩

/-- A lease which one start of the agent has granted is unknown to any other,
which refuses to release it, and for that does nothing but clear away expired
leases and record the refusal. -/
theorem restarted_agent_refuses_old_leases
    (hstart : start text display env = .ok agentd)
    (hrestart : start other display later = .ok restarted)
    (hdistinct : ¬SameStart env later)
    (hruns : agentd.server.Runs actions daemon)
    (hreruns : restarted.server.Runs rerun again)
    (hgranter : daemon.agent.sessions[i]? = some granter)
    (hgranted : granter.response? = some (.leaseGranted view))
    (hcall : again.agent.sessions[j]? = some call)
    (hasked : call.request = .releaseLease ⟨view.leaseId⟩) :
    again.agent.shared.get view.leaseId = none ∧
      RefusedOnly call (again.agent.wordOf j) := by
  obtain ⟨request, now, timed, lease, rest, -, hgrants, hword, -⟩ :=
    (hruns.agent.explained hgranter).grants hgranted
  have hforeign : view.leaseId.issuer ≠
      restarted.server.handler.instanceId := by
    rw [hgrants.shown]
    rw [issuer_of_word hruns hword]
    exact instanceId_ne_of_start hstart hrestart hdistinct
  exact ⟨hreruns.agent.not_stored_of_foreign hforeign,
    hreruns.agent.foreign_release_refused hcall hasked hforeign⟩

end Restart

/-! ## A lease which outlives its agent -/

def staleMessage : Request :=
  .current ⟨⟨6⟩, .releaseLease ⟨bootView.leaseId⟩⟩

def rebootText : JsonText :=
  knowingAll
    [versionedJson policyDocumentJson (.current samplePolicy.document),
      requestJson staleMessage]

def rebootEnvironment : Environment where
  varOs := bootEnvironment.varOs
  readFile _ := .ok (savedPolicy rebootText samplePolicy)
  openAuditLog _ := .ok ()
  processId := 9
  processStart := .present ⟨8⟩ .kernelObserved

def rebootAgentd : Agentd where
  config := bootAgentd.config
  server := ⟨defaultServerConfig, .ofJson rebootText,
    ⟨⟨"agent-pid-9-start-8"⟩, samplePolicy, bootAgentd.server.handler.config⟩⟩
  auditLog := none
  seeded := [sampleResource]

theorem start_rebootEnvironment :
    start rebootText bootDisplay rebootEnvironment = .ok rebootAgentd := by
  obtain ⟨⟨⟨path, hpath, -⟩, httl, hmaximum, -⟩, hstartable, -⟩ :=
    start_eq_ok_iff.mp start_bootEnvironment
  refine start_eq_ok_iff.mpr ⟨⟨⟨path, hpath, ?_⟩, httl, hmaximum, ?_⟩,
    ⟨hstartable.mode, hstartable.path, hstartable.auditLog⟩, rfl, rfl, ?_⟩
  · exact loadPolicy_eq_ok_iff.mp
      (loadPolicy_savedPolicy (reads_knowingAll_cons _ _))
  · exact ⟨⟨8⟩, .kernelObserved, rfl, by decide +kernel⟩
  · decide +kernel

def rebootReception : Reception where
  timeoutsSet := true
  peer := some bootPeer
  stream := [.chunk (wireFrame
    (rebootAgentd.server.codec.printRequest staleMessage))]

def rebootActions : List DaemonAction :=
  acceptActions 0 ++
    [.receive 0 (.returned rebootReception),
      .handle 0 (.release ⟨3⟩ (.returned (.ok .allowed))),
      .handle 0 .record]

def rebootDaemon : Daemon :=
  rebootAgentd.server.finalState rebootActions (by decide +kernel)

theorem runs_rebootDaemon :
    rebootAgentd.server.Runs rebootActions rebootDaemon :=
  AgentServer.runs_finalState _

def staleCall : Call :=
  ⟨bootPeer, .releaseLease ⟨bootView.leaseId⟩,
    .answered (.leaseReleased .refused)⟩

theorem not_sameStart_rebootEnvironment :
    ¬SameStart bootEnvironment rebootEnvironment := by
  rintro ⟨-, token, htoken, hretoken⟩
  cases htoken
  simp [rebootEnvironment, Evidence.value] at hretoken

def bootCall : Call :=
  ⟨bootPeer, sampleLeaseRequest, .answered (.leaseGranted bootView)⟩

theorem getElem?_bootDaemon_sessions :
    bootDaemon.agent.sessions[0]? = some bootCall := by
  decide +kernel

theorem rebootDaemon_refuses_bootView :
    rebootDaemon.agent.shared.get bootView.leaseId = none ∧
      RefusedOnly staleCall (rebootDaemon.agent.wordOf 0) :=
  restarted_agent_refuses_old_leases start_bootEnvironment
    start_rebootEnvironment not_sameStart_rebootEnvironment runs_bootDaemon
    runs_rebootDaemon getElem?_bootDaemon_sessions rfl (by decide +kernel)
    rfl

end Eltanin.Agent
