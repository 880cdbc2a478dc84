import Eltanin.AuthorizationGrant

/-!
# Who can release a lease, and what a refusal tells

Lease ids are enumerable, so a release rests on what is observed about the
peer.  A release succeeds exactly for a peer which compares same with the bound
workload, once; a refusal is one answer for every cause and changes nothing but
what pruning would.  Whether the granted peer itself compares same is a matter
of its own evidence, because missing evidence is no match.
-/

namespace Eltanin.Agent

open Eltanin.Core Backend Protocol EventLog InterleavedSessions
  AuthorizationHandler

/-- The lease is bound to the workload: same process, same executable. -/
def BoundTo (lease : ComputeLease) (workload : WorkloadIdentity) : Prop :=
  lease.origin.context.workload.compareProcess workload = .same ∧
    lease.origin.context.workload.compareExecutable workload = .same

/-- The id names an unexpired stored lease which is bound to the peer. -/
def OwnsLease (state : LeaseState) (peer : PeerContext) (id : LeaseId)
    (now : MonotonicTime) : Prop :=
  ∃ lease, state.get id = some lease ∧ now < lease.expiresAt ∧
    BoundTo lease peer.observed.workload

instance (lease : ComputeLease) (workload : WorkloadIdentity) :
    Decidable (BoundTo lease workload) :=
  inferInstanceAs (Decidable (_ ∧ _))

instance (state : LeaseState) (peer : PeerContext) (id : LeaseId)
    (now : MonotonicTime) : Decidable (OwnsLease state peer id now) :=
  inferInstanceAs (Decidable (∃ lease, lease ∈ state.get id ∧
    now < lease.expiresAt ∧ BoundTo lease peer.observed.workload))

def responseTo (handler : AuthorizationHandler) (agent : AgentState)
    (peer : PeerContext) (request : ClientRequest) (action : CallAction) :
    Option AgentResponse :=
  (PartialExecution.execute handler.step agent
    (opening agent peer request action)).bind fun next =>
      (next.sessions[agent.sessions.length]?).bind Call.response?

section NoOracle

variable {handler : AuthorizationHandler} {agent : AgentState}
  {peer : PeerContext} {id : LeaseId} {now : MonotonicTime}
  {backend : Completion BackendReply}

theorem ownsLease_of_releasable {state : LeaseState}
    {request : ReleaseRequest} {observed : ExecutionContext}
    {lease : ComputeLease}
    (hpeer : peer.authorizable = some observed)
    (hreleasable : Releasable state request observed now lease) :
    OwnsLease state peer request.leaseId now := by
  rcases hreleasable with ⟨hstored, hvalidated⟩
  obtain ⟨_, hobserved⟩ := PeerContext.authorizable_eq_some_iff.mp hpeer
  subst hobserved
  have hbefore := (LeaseState.get_prune_eq_some_iff.mp hstored).1
  exact ⟨lease, hbefore, hvalidated.unexpired, hvalidated.process,
    hvalidated.executable⟩

theorem act_release (state : LeaseState) :
    handler.act state ⟨peer, .releaseLease ⟨id⟩, .arrived⟩
      (.release now backend) =
        some (performReleaseLease state
          ⟨peer, .releaseLease ⟨id⟩, .arrived⟩ ⟨id⟩ now backend) := rfl

theorem responseTo_release_of_not_owns (handler : AuthorizationHandler)
    (backend : Completion BackendReply)
    (hnot : ¬OwnsLease agent.shared peer id now) :
    responseTo handler agent peer (.releaseLease ⟨id⟩)
      (.release now backend) = some (.leaseReleased .refused) := by
  cases hperform : performReleaseLease agent.shared
      ⟨peer, .releaseLease ⟨id⟩, .arrived⟩ ⟨id⟩ now backend with
  | mk state result =>
      obtain ⟨after, new⟩ := result
      have hact : handler.act agent.shared
          ⟨peer, .releaseLease ⟨id⟩, .arrived⟩ (.release now backend) =
            some (state, after, new) := by
        rw [act_release, hperform]
      have hrun := execute_opening_eq_some_iff.mpr
        ⟨state, after, new, hact, rfl⟩
      rw [responseTo, hrun, Option.bind_some, getElem?_opening,
        Option.bind_some]
      obtain ⟨phase, hafter, htransition⟩ := reaches_of_act hact
      rw [hafter]
      cases htransition with
      | releaseRefusedUnlocked => rfl
      | releaseRefused harrived hrequest hpeer hno hrefused =>
          exact congrArg some hrefused
      | released harrived hrequest hpeer hreleasable =>
          have hid := ClientRequest.releaseLease.inj hrequest
          have howns := ownsLease_of_releasable hpeer hreleasable
          rw [← hid] at howns
          exact (hnot howns).elim

end NoOracle

/-- A release answer is no oracle: in any two states of a handler in which the
peer owns no such lease, a release is answered alike, and refused. -/
theorem AuthorizationHandler.release_answer_is_no_oracle
    (handler : AuthorizationHandler) (first second : AgentState)
    (peer : PeerContext) (id : LeaseId) (now : MonotonicTime)
    (firstBackend secondBackend : Completion BackendReply)
    (hfirst : ¬OwnsLease first.shared peer id now)
    (hsecond : ¬OwnsLease second.shared peer id now) :
    responseTo handler first peer (.releaseLease ⟨id⟩)
        (.release now firstBackend) =
      responseTo handler second peer (.releaseLease ⟨id⟩)
        (.release now secondBackend) ∧
    responseTo handler first peer (.releaseLease ⟨id⟩)
        (.release now firstBackend) = some (.leaseReleased .refused) := by
  have hleft := responseTo_release_of_not_owns handler firstBackend hfirst
  have hright := responseTo_release_of_not_owns handler secondBackend hsecond
  exact ⟨hleft.trans hright.symm, hleft⟩

def sampleId : LeaseId := ⟨⟨"agent-1"⟩, 0⟩

def strangerPeer : PeerContext :=
  let peer := workerPeer .unsupported
  { peer with observed :=
      { peer.observed with workload :=
          { peer.observed.workload with pid := 8 } } }

/-- The stranger cannot tell a lease of the worker from one never issued. -/
theorem strangerPeer_learns_nothing :
    responseTo sampleHandler sampleHandler.initial strangerPeer
        (.releaseLease ⟨sampleId⟩) (.release ⟨2⟩ .panicked) =
      responseTo sampleHandler grantedState strangerPeer
        (.releaseLease ⟨sampleId⟩) (.release ⟨2⟩ .panicked) ∧
    responseTo sampleHandler sampleHandler.initial strangerPeer
        (.releaseLease ⟨sampleId⟩) (.release ⟨2⟩ .panicked) =
      some (.leaseReleased .refused) :=
  sampleHandler.release_answer_is_no_oracle sampleHandler.initial
    grantedState strangerPeer sampleId ⟨2⟩ .panicked .panicked (by decide)
    (by decide)

/-! ## Only the owner releases, and once -/

section Owner

variable {handler : AuthorizationHandler} {actions : List AgentAction}
  {agent : AgentState} {i : ℕ} {call : Call} {id : LeaseId}

def Unreleased (agent : AgentState) (id : LeaseId) : Prop :=
  ∀ event ∈ agent.transcript, event.2 ≠ .released id

instance (agent : AgentState) (id : LeaseId) :
    Decidable (Unreleased agent id) :=
  inferInstanceAs
    (Decidable (∀ event ∈ agent.transcript, event.2 ≠ .released id))

/-- What a release of `lease` by the peer at the reading must have found. -/
structure OwnerRelease (handler : AuthorizationHandler)
    (state : AgentState) (peer : PeerContext) (now : MonotonicTime)
    (lease : ComputeLease) : Prop where
  consistent : peer.consistency = .consistent
  instanceId : lease.id.issuer = handler.instanceId
  granted : ∃ granter call view,
    (granter, .inserted lease) ∈ state.transcript ∧
      state.sessions[granter]? = some call ∧
      call.response? = some (.leaseGranted view) ∧ view.leaseId = lease.id
  unreleased : Unreleased state lease.id
  unexpired : now < lease.expiresAt
  process : lease.origin.context.workload.pid = peer.observed.workload.pid ∧
    ∃ token,
      lease.origin.context.workload.processStart.trusted? = some token ∧
        peer.observed.workload.processStart.trusted? = some token
  executable :
    (∃ hash,
      lease.origin.context.workload.executableHash.trusted? = some hash ∧
        peer.observed.workload.executableHash.trusted? = some hash) ∨
    ((lease.origin.context.workload.executableHash.trusted? = none ∨
        peer.observed.workload.executableHash.trusted? = none) ∧
      ∃ path,
        lease.origin.context.workload.executablePath.trusted? = some path ∧
          peer.observed.workload.executablePath.trusted? = some path)

def Happening.CallsBackend : Happening → Prop
  | .enforced _ _ => True
  | .backendRevoked _ _ => True
  | _ => False

theorem AuthorizationHandler.Runs.exists_grant_of_inserted
    (hruns : handler.Runs actions agent) {lease : ComputeLease}
    (hinserted : (i, .inserted lease) ∈ agent.transcript) :
    ∃ call view, agent.sessions[i]? = some call ∧
      call.response? = some (.leaseGranted view) ∧
      view.leaseId = lease.id := by
  obtain ⟨call, hcall⟩ := hruns.exists_call_of_mem hinserted
  have hexplained := hruns.explained hcall
  obtain ⟨_, _, _, view, _, _, hgrants, hresponse, _⟩ :=
    hexplained.grants_of_inserted (System.mem_wordOf_iff.mpr hinserted)
  exact ⟨call, view, hcall, hresponse, by rw [hgrants.shown]⟩

theorem AuthorizationHandler.Runs.unreleased_of_stored
    (hruns : handler.Runs actions agent) {lease : ComputeLease}
    (hstored : agent.shared.get id = some lease) :
    Unreleased agent lease.id := by
  have hinvariant := hruns.ledgerInvariant
  have hlive := (hinvariant.holdings.live
    (hinvariant.holdings.live_of_stored hstored)).2
  intro event hevent hreleased
  obtain ⟨j, happening⟩ := event
  subst hreleased
  exact hlive (hinvariant.issuer.released hevent).2

theorem AuthorizationHandler.Runs.ownerRelease_of_releasable
    (hruns : handler.Runs actions agent) {peer : PeerContext}
    {observed : ExecutionContext} {request : ReleaseRequest}
    {now : MonotonicTime} {lease : ComputeLease}
    (hpeer : peer.authorizable = some observed)
    (hreleasable :
      Releasable agent.shared request observed now lease) :
    lease.id = request.leaseId ∧
      OwnerRelease handler agent peer now lease := by
  rcases hreleasable with ⟨hstored, hvalidated⟩
  obtain ⟨hconsistent, hobserved⟩ :=
    PeerContext.authorizable_eq_some_iff.mp hpeer
  subst hobserved
  have hbefore : agent.shared.get request.leaseId = some lease :=
    (LeaseState.get_prune_eq_some_iff.mp hstored).1
  have hinvariant := hruns.ledgerInvariant
  obtain ⟨hid, houtstanding⟩ := hinvariant.holdings.stored_iff.mp hbefore
  obtain ⟨⟨granter, happening⟩, hmem, heq⟩ := houtstanding.exists_mem
  subst heq
  obtain ⟨call, view, hcall, hresponse, hview⟩ :=
    hruns.exists_grant_of_inserted hmem
  exact ⟨hid,
    { consistent := hconsistent
      instanceId := hvalidated.instanceId.trans hinvariant.issuer.instanceId
      granted := ⟨granter, call, view, hmem, hcall, hresponse, hview⟩
      unreleased := hruns.unreleased_of_stored hbefore
      unexpired := hvalidated.unexpired
      process :=
        WorkloadIdentity.compareProcess_eq_same_iff.mp hvalidated.process
      executable :=
        WorkloadIdentity.compareExecutable_eq_same_iff.mp
          hvalidated.executable }⟩

theorem AuthorizationHandler.Runs.eq_of_released
    (hruns : handler.Runs actions agent) {j : ℕ} {other : Call}
    (hcall : agent.sessions[i]? = some call)
    (hother : agent.sessions[j]? = some other)
    (hrequest : call.request = .releaseLease ⟨id⟩)
    (hsame : other.request = .releaseLease ⟨id⟩)
    (hreleased : call.response? = some (.leaseReleased .released))
    (hagain : other.response? = some (.leaseReleased .released)) :
    i = j := by
  have hmem : ∀ {k : ℕ} {released : Call},
      agent.sessions[k]? = some released →
      released.request = .releaseLease ⟨id⟩ →
      released.response? = some (.leaseReleased .released) →
        (k, .released id) ∈ agent.transcript := by
    intro k released hget hasked hresponse
    obtain ⟨request, hrequested, hevent⟩ :=
      (hruns.explained hget).released_mem hresponse
    rw [hasked, ClientRequest.releaseLease.injEq] at hrequested
    rw [← hrequested] at hevent
    exact System.mem_wordOf_iff.mp hevent
  have hdistinct := hruns.ledgerInvariant.issuer.released_distinct
  have heq := hdistinct.eq_of_key_eq (hmem hcall hrequest hreleased)
    (hmem hother hsame hagain) rfl rfl
  exact congrArg Prod.fst heq

/-- Only the owner releases a lease, each lease is released once, and a refused
release leaves the issuer, the backend and every unexpired lease alone. -/
structure OnlyOwnerReleasesOnce (handler : AuthorizationHandler)
    (actions : List AgentAction) (agent : AgentState) : Prop where
  owner : ∀ (i : ℕ) (call : Call) (id : LeaseId),
    agent.sessions[i]? = some call →
    call.request = .releaseLease ⟨id⟩ →
    call.response? = some (.leaseReleased .released) →
      ∃ before now backend after state lease,
        actions = before ++ .act i (.release now backend) :: after ∧
        handler.Runs before state ∧ lease.id = id ∧
        OwnerRelease handler state call.peer now lease
  once : ∀ (i j : ℕ) (call other : Call) (id : LeaseId),
    agent.sessions[i]? = some call → agent.sessions[j]? = some other →
    call.request = .releaseLease ⟨id⟩ →
    other.request = .releaseLease ⟨id⟩ →
    call.response? = some (.leaseReleased .released) →
    other.response? = some (.leaseReleased .released) → i = j
  refused : ∀ (i : ℕ) (call : Call), agent.sessions[i]? = some call →
    call.response? = some (.leaseReleased .refused) →
      (∃ before now backend after state next,
        actions = before ++ .act i (.release now backend) :: after ∧
        handler.Runs before state ∧
        handler.step state (.act i (.release now backend)) = some next ∧
        next.shared.issuer = state.shared.issuer ∧
        ∀ id lease, now < lease.expiresAt →
          (next.shared.get id = some lease ↔
            state.shared.get id = some lease)) ∧
      ∀ event ∈ agent.wordOf i, ¬event.CallsBackend

theorem AuthorizationHandler.Runs.only_owner_releases_once
    (hruns : handler.Runs actions agent) :
    OnlyOwnerReleasesOnce handler actions agent := by
  refine ⟨?_, ?_, ?_⟩
  · intro i call id hcall hrequest hreleased
    obtain ⟨before, action, after, state, earlier, next, phase, new, hsplit,
      hbefore, hcurrent, hundecided, htransition, hdecides, hstep⟩ :=
      hruns.exists_deciding_action hcall hreleased
    obtain ⟨request, now, backend, hasked, haction, _, hentitled⟩ :=
      htransition.release_cases hundecided hdecides
    obtain ⟨observed, lease, hpeer, hreleasable⟩ := hentitled rfl
    obtain ⟨hid, howner⟩ :=
      hbefore.ownerRelease_of_releasable hpeer hreleasable
    have hsame : ReleaseRequest.mk id = request :=
      ClientRequest.releaseLease.inj (hrequest.symm.trans hasked)
    subst haction
    exact ⟨before, now, backend, after, state, lease, hsplit, hbefore,
      by rw [hid, ← hsame], howner⟩
  · intro i j call other id hcall hother hrequest hsame hreleased hagain
    exact hruns.eq_of_released hcall hother hrequest hsame hreleased hagain
  · intro i call hcall hrefused
    constructor
    · obtain ⟨before, action, after, state, earlier, next, phase, new, hsplit,
        hbefore, hcurrent, hundecided, htransition, hdecides, hstep⟩ :=
        hruns.exists_deciding_action hcall hrefused
      obtain ⟨request, now, backend, _, haction, hunchanged, _⟩ :=
        htransition.release_cases hundecided hdecides
      subst haction
      refine ⟨before, now, backend, after, state, _, hsplit, hbefore, hstep,
        ?_⟩
      rcases hunchanged rfl with hnext | hnext
      · subst hnext
        exact ⟨rfl, fun id lease _ => Iff.rfl⟩
      · subst hnext
        refine ⟨rfl, ?_⟩
        intro id lease hunexpired
        constructor
        · intro hkept
          exact (LeaseState.get_prune_eq_some_iff.mp hkept).1
        · intro hstored
          exact LeaseState.get_prune_eq_some_iff.mpr ⟨hstored, hunexpired⟩
    · intro event hmem
      rcases (hruns.explained hcall).refused hrefused event hmem with
        ⟨now, heq⟩ | ⟨recorded, heq⟩
      · rw [heq]
        exact not_false
      · rw [heq]
        exact not_false

end Owner

def releaseActions : List AgentAction :=
  let worker := workerPeer (.present "sha256:worker" .kernelObserved)
  grantActions worker.observed.workload.executableHash ++
    [.start (worker, .releaseLease ⟨sampleId⟩),
      .act 1 (.release ⟨2⟩ (.returned (.ok .allowed))),
      .start (worker, .releaseLease ⟨sampleId⟩),
      .act 2 (.release ⟨3⟩ (.returned (.ok .allowed)))]

def releasedState : AgentState :=
  sampleHandler.finalState releaseActions (by decide)

theorem releasedState_only_owner_releases_once :
    OnlyOwnerReleasesOnce sampleHandler releaseActions releasedState :=
  (runs_finalState _).only_owner_releases_once

/-! ## Whether the granted peer can release -/

/-- The evidence on which identity comparison can recognize a workload: a
trusted start token, and a trusted hash or path of the executable. -/
def Recognizable (workload : WorkloadIdentity) : Prop :=
  workload.processStart.trusted?.isSome ∧
    (workload.executableHash.trusted?.isSome ∨
      workload.executablePath.trusted?.isSome)

section Granted

variable {handler : AuthorizationHandler} {actions : List AgentAction}
  {agent next : AgentState} {i j : ℕ} {granted : Call} {view : LeaseView}
  {lease : ComputeLease} {now : MonotonicTime}
  {backend : Completion BackendReply}

theorem AuthorizationHandler.Runs.stored_of_inserted
    (hruns : handler.Runs actions agent)
    (hinserted : (i, .inserted lease) ∈ agent.transcript)
    (hunreleased : Unreleased agent lease.id)
    (hunexpired : ∀ reading ∈ readings agent, reading < lease.expiresAt) :
    agent.shared.get lease.id = some lease := by
  apply hruns.ledgerInvariant.holdings.stored_iff.mpr
  refine ⟨rfl, since_of_mem hinserted rfl ?_⟩
  intro later hlater hdrops
  obtain ⟨k, event⟩ := later
  cases event with
  | pruned reading =>
      have hmem : reading ∈ readings agent := by
        refine List.mem_filterMap.mpr ⟨.pruned reading, ?_, rfl⟩
        exact List.mem_map_of_mem hlater
      have hlt := hunexpired reading hmem
      exact MonotonicTime.not_le_iff_lt.mpr hlt hdrops
  | released id =>
      have hid : id = lease.id := hdrops
      exact hunreleased _ hlater (congrArg Happening.released hid)
  | issued other => exact hdrops
  | enforced request reply => exact hdrops
  | timed reading => exact hdrops
  | inserted other => exact hdrops
  | compensated id => exact hdrops
  | backendRevoked resource reply => exact hdrops
  | recorded event => exact hdrops

theorem readings_advance {state : LeaseState} {after : Call}
    {new : List Happening} :
    readings (agent.advance j state after new) =
      readings agent ++ new.filterMap Happening.reading? := by
  simp [readings, System.advance, Function.comp_def]

theorem readings_le_of_advance {state : LeaseState} {after : Call}
    {new : List Happening}
    (hclock : NondecreasingClock
      (agent.advance j state after (.pruned now :: new))) :
    ∀ reading ∈ readings agent, reading ≤ now := by
  rw [NondecreasingClock, readings_advance, List.pairwise_append] at hclock
  intro reading hreading
  exact hclock.2.2 reading hreading now (by simp [Happening.reading?])

theorem AuthorizationHandler.Runs.grant_of_inserted
    (hruns : handler.Runs actions agent)
    (hcall : agent.sessions[i]? = some granted)
    (hanswered : granted.phase = .answered (.leaseGranted view))
    (hinserted : (i, .inserted lease) ∈ agent.transcript) :
    lease.id = view.leaseId ∧
      lease.origin.context = granted.peer.observed ∧
        granted.peer.authorizable = some granted.peer.observed := by
  obtain ⟨request, issuedAt, timedAt, shown, _, _, hgrants, hresponse, _⟩ :=
    (hruns.explained hcall).grants_of_inserted
      (System.mem_wordOf_iff.mpr hinserted)
  have hview : shown = view := by
    simp only [Call.response?, hanswered, Option.some.injEq,
      AgentResponse.leaseGranted.injEq] at hresponse
    exact hresponse.symm
  have hid : view.leaseId = lease.id := by rw [← hview, hgrants.shown]
  have hcontext : lease.origin.context = granted.peer.observed := by
    rw [hgrants.issued.origin]
    rfl
  exact ⟨hid.symm, hcontext, PeerContext.authorizable_eq_some_iff.mpr
    ⟨hgrants.issued.consistent, rfl⟩⟩

/-- For the granted peer, before expiry, the only thing between a lease and
its release is whether the comparison can recognize the peer at all. -/
theorem AuthorizationHandler.Runs.releasable_iff_recognizable
    (hruns : handler.Runs actions agent)
    (hcall : agent.sessions[i]? = some granted)
    (hanswered : granted.phase = .answered (.leaseGranted view))
    (hinserted : (i, .inserted lease) ∈ agent.transcript)
    (hunreleased : Unreleased agent view.leaseId)
    (hreadings : ∀ reading ∈ readings agent, reading ≤ now)
    (hbefore : now < lease.expiresAt) (other : ComputeLease) :
    Releasable agent.shared ⟨view.leaseId⟩ granted.peer.observed now other ↔
      other = lease ∧ Recognizable granted.peer.observed.workload := by
  obtain ⟨hid, hcontext, _⟩ :=
    hruns.grant_of_inserted hcall hanswered hinserted
  rw [← hid] at hunreleased ⊢
  have hunexpired : ∀ reading ∈ readings agent, reading < lease.expiresAt :=
    fun reading hreading =>
      MonotonicTime.lt_of_le_of_lt (hreadings reading hreading) hbefore
  have hstored : agent.shared.get lease.id = some lease :=
    hruns.stored_of_inserted hinserted hunreleased hunexpired
  have hkept : (agent.shared.prune now).get lease.id = some lease :=
    LeaseState.get_prune_eq_some_iff.mpr ⟨hstored, hbefore⟩
  have hholdings := hruns.ledgerInvariant.holdings
  have hlive := hholdings.live (hholdings.live_of_stored hstored)
  have hprocess := WorkloadIdentity.compareProcess_self_iff
    granted.peer.observed.workload
  have hexecutable := WorkloadIdentity.compareExecutable_self_iff
    granted.peer.observed.workload
  constructor
  · intro hreleasable
    rcases hreleasable with ⟨hother, hvalidated⟩
    have hsame : lease = other := Option.some.inj (hkept.symm.trans hother)
    subst hsame
    have hprocesses := hvalidated.process
    have hexecutables := hvalidated.executable
    rw [hcontext] at hprocesses hexecutables
    exact ⟨rfl, hprocess.mp hprocesses, hexecutable.mp hexecutables⟩
  · intro hrecognizable
    rcases hrecognizable with ⟨hsame, hstart, himage⟩
    subst hsame
    exact ⟨hkept,
      { instanceId := hlive.1.1
        live := hlive.2
        request := rfl
        process := by
          rw [hcontext]
          exact hprocess.mpr hstart
        executable := by
          rw [hcontext]
          exact hexecutable.mpr himage
        unexpired := hbefore }⟩

/-- The answer to a release of its own lease by the peer it was granted to. A
release which takes effect is answered so unless the backend's teardown
unwinds. -/
def OwnReleaseAnswered (next : AgentState) (j : ℕ) (peer : PeerContext)
    (id : LeaseId) (backend : Completion BackendReply) : Prop :=
  ∃ after, next.sessions[j]? = some after ∧
    (Recognizable peer.observed.workload →
      (j, .released id) ∈ next.transcript ∧
        (after.response? = some (.leaseReleased .released) ∨
          backend = .panicked ∧
            after.response? = some (.error .internal))) ∧
    (¬Recognizable peer.observed.workload →
      after.response? = some (.leaseReleased .refused))

/-- Whoever was granted a lease can release it exactly if its own evidence
makes it recognizable; otherwise it is refused like anyone else. -/
theorem AuthorizationHandler.Runs.own_release_answered
    (hruns : handler.Runs actions agent)
    (hcall : agent.sessions[i]? = some granted)
    (hanswered : granted.phase = .answered (.leaseGranted view))
    (hinserted : (i, .inserted lease) ∈ agent.transcript)
    (hunreleased : Unreleased agent view.leaseId)
    (hrelease : agent.sessions[j]? =
      some ⟨granted.peer, .releaseLease ⟨view.leaseId⟩, .arrived⟩)
    (hstep : handler.step agent (.act j (.release now backend)) = some next)
    (hclock : NondecreasingClock next)
    (hbefore : now < lease.expiresAt) :
    OwnReleaseAnswered next j granted.peer view.leaseId backend := by
  obtain ⟨_, _, hpeer⟩ := hruns.grant_of_inserted hcall hanswered hinserted
  obtain ⟨current, state, after, new, hcurrent, hact, hnext⟩ :=
    step_act_eq_some_iff.mp hstep
  rw [hrelease, Option.some.injEq] at hcurrent
  subst hcurrent
  subst hnext
  obtain ⟨phase, hafter, htransition⟩ := reaches_of_act hact
  refine ⟨after, (System.getElem?_advance_eq_some_iff hrelease).mpr
    (.inl ⟨rfl, rfl⟩), ?_⟩
  rw [hafter]
  cases htransition with
  | releaseRefusedUnlocked harrived hrequest hnone =>
      rw [hpeer] at hnone
      contradiction
  | releaseRefused harrived hrequest hsome hnot hrefused =>
      have hiff := hruns.releasable_iff_recognizable hcall hanswered
        hinserted hunreleased (readings_le_of_advance hclock) hbefore lease
      rw [← ClientRequest.releaseLease.inj hrequest,
        ← Option.some.inj (hpeer.symm.trans hsome)] at hnot
      constructor
      · intro hrecognizable
        exact (hnot lease (hiff.mpr ⟨rfl, hrecognizable⟩)).elim
      · intro _
        exact congrArg some hrefused
  | @released _ _ request observed other harrived hrequest hsome
      hreleasable =>
      have hiff := hruns.releasable_iff_recognizable hcall hanswered
        hinserted hunreleased (readings_le_of_advance hclock) hbefore other
      rw [← ClientRequest.releaseLease.inj hrequest,
        ← Option.some.inj (hpeer.symm.trans hsome)] at hreleasable
      have hrecognizable := (hiff.mp hreleasable).2
      rw [response?_releaseConclusion]
      constructor
      · intro _
        constructor
        · rw [System.mem_transcript_advance_iff,
            ← ClientRequest.releaseLease.inj hrequest]
          exact .inr ⟨rfl, by simp⟩
        · split
          next hpanicked =>
            right
            refine ⟨?_, rfl⟩
            unfold teardownReply at hpanicked
            split at hpanicked
            · contradiction
            · exact Option.some.inj hpanicked
          · exact .inl rfl
      · intro hnot
        exact (hnot hrecognizable).elim

end Granted

def askActions (executableHash : Evidence String) : List AgentAction :=
  grantActions executableHash ++
    [.start (workerPeer executableHash, .releaseLease ⟨sampleId⟩)]

def workerLease (executableHash : Evidence String) : ComputeLease where
  id := sampleId
  origin := ⟨workerContext executableHash, sampleRequest⟩
  policy := samplePolicy.provenance
  decisionReason := .explicitAllow {⟨"allow-slice"⟩}
  issuedAt := ⟨0⟩
  expiresAt := ⟨60⟩

def workerHash : Evidence String :=
  .present "sha256:worker" .kernelObserved

def recognizedState : AgentState :=
  sampleHandler.finalState (askActions workerHash) (by decide)

def unrecognizedState : AgentState :=
  sampleHandler.finalState (askActions .unsupported) (by decide)

def refusedState : AgentState :=
  sampleHandler.nextState unrecognizedState
    (.act 1 (.release ⟨2⟩ (.returned (.ok .allowed)))) (by decide)

theorem recognizedState_own_release_answered :
    OwnReleaseAnswered
      (sampleHandler.nextState recognizedState
        (.act 1 (.release ⟨2⟩ (.returned (.ok .allowed)))) (by decide))
      1 (workerPeer workerHash) sampleId (.returned (.ok .allowed)) := by
  have hcall : recognizedState.sessions[0]? =
      some ⟨workerPeer workerHash, sampleLeaseRequest,
        .answered (.leaseGranted sampleView)⟩ := by decide
  have hinserted : (0, .inserted (workerLease workerHash)) ∈
      recognizedState.transcript := by decide
  exact (runs_finalState _).own_release_answered hcall rfl hinserted
    (by decide) (by decide) (step_nextState _) (by decide) (by decide)

/-- A worker without a trusted hash or path of its executable is granted a
lease and cannot release it. -/
theorem granted_lease_can_be_unreleasable :
    ¬∀ (handler : AuthorizationHandler) (actions : List AgentAction)
        (agent next : AgentState) (i j : ℕ) (granted : Call)
        (view : LeaseView) (lease : ComputeLease) (now : MonotonicTime)
        (reply : BackendReply),
      handler.Runs actions agent →
      agent.sessions[i]? = some granted →
      granted.phase = .answered (.leaseGranted view) →
      (i, .inserted lease) ∈ agent.transcript →
      Unreleased agent view.leaseId →
      agent.sessions[j]? =
        some ⟨granted.peer, .releaseLease ⟨view.leaseId⟩, .arrived⟩ →
      handler.step agent (.act j (.release now (.returned reply))) =
        some next →
      NondecreasingClock next →
      now < lease.expiresAt →
        ∃ after, next.sessions[j]? = some after ∧
          after.response? = some (.leaseReleased .released) := by
  intro hall
  have hcall : unrecognizedState.sessions[0]? =
      some ⟨workerPeer .unsupported, sampleLeaseRequest,
        .answered (.leaseGranted sampleView)⟩ := by decide
  have hinserted : (0, .inserted (workerLease .unsupported)) ∈
      unrecognizedState.transcript := by decide
  have hstep : sampleHandler.step unrecognizedState
      (.act 1 (.release ⟨2⟩ (.returned (.ok .allowed)))) =
        some refusedState := step_nextState _
  have hreleased := hall sampleHandler (askActions .unsupported)
    unrecognizedState refusedState 0 1 _ sampleView
    (workerLease .unsupported) ⟨2⟩ (.ok .allowed) (runs_finalState _) hcall
    rfl hinserted (by decide) (by decide) hstep (by decide) (by decide)
  rcases hreleased with ⟨after, hafter, hresponse⟩
  have hrefused : refusedState.sessions[1]?.bind Call.response? =
      some (.leaseReleased .refused) := by decide
  rw [hafter, Option.bind_some, hresponse] at hrefused
  contradiction

end Eltanin.Agent
