import Eltanin.CallTransitions

/-!
# The history of one call

Whatever other calls did in between, the events of one call are determined up
to its readings and replies by the phase it has reached.  A call answered with
a grant has issued, been allowed, read the clock and inserted, in this order;
a call answered otherwise has inserted nothing.  Exactly one action decides
the response of a call.
-/

namespace Eltanin.Agent

open Eltanin.Core Backend Protocol InterleavedSessions AuthorizationHandler

/-- What issuing `lease` at `now` has established about the peer. -/
structure IssuedFor (handler : AuthorizationHandler) (peer : PeerContext)
    (request : LeaseRequest) (now : MonotonicTime) (lease : ComputeLease) :
    Prop where
  consistent : peer.consistency = .consistent
  allowed : (handler.policy.evaluate peer.observed
    ⟨request.resource, request.action⟩).effect = .allow
  origin : lease.origin = provenanceFor request peer.observed
  issuedAt : lease.issuedAt = now
  expiresAt : lease.expiresAt.nanos.toNat =
    now.nanos.toNat + handler.config.leaseTtl.asNanos

/-- A grant of `lease`, issued at `now` and timed at `later`, as the client
sees it. -/
structure Grants (handler : AuthorizationHandler) (peer : PeerContext)
    (request : LeaseRequest) (now later : MonotonicTime)
    (lease : ComputeLease) (view : LeaseView) : Prop where
  issued : IssuedFor handler peer request now lease
  shown : view = ⟨lease.id, lease.expiresAt.saturatingDurationSince later⟩
  remains : ¬view.remaining.IsZero

def issueEvents (now : MonotonicTime) (lease : ComputeLease) :
    List Happening :=
  [.pruned now, .issued lease]

def grantEvents (now later : MonotonicTime) (lease : ComputeLease) :
    List Happening :=
  [.pruned now, .issued lease,
    .enforced lease.origin.request (.returned (.ok .allowed)),
    .timed later, .inserted lease]

def InsertsNothing (events : List Happening) : Prop :=
  ∀ lease, .inserted lease ∉ events

def ConcludesWith (handler : AuthorizationHandler) (peer : PeerContext)
    (asked : ClientRequest) (response : AgentResponse)
    (events : List Happening) : Prop :=
  match response with
  | .leaseGranted view =>
      ∃ request now later lease, asked = .requestLease request ∧
        Grants handler peer request now later lease view ∧
          events = grantEvents now later lease
  | .leaseReleased .released =>
      InsertsNothing events ∧
        ∃ request, asked = .releaseLease request ∧
          .released request.leaseId ∈ events
  | .leaseReleased .refused => ∀ event ∈ events, ∃ now, event = .pruned now
  | _ => InsertsNothing events

/-- The events of a call, by the phase it has reached. -/
def Explained (handler : AuthorizationHandler) (call : Call)
    (events : List Happening) : Prop :=
  match call.phase with
  | .arrived => events = []
  | .issued lease =>
      ∃ request now, call.request = .requestLease request ∧
        IssuedFor handler call.peer request now lease ∧
          events = issueEvents now lease
  | .enforced lease reply =>
      ∃ request now, call.request = .requestLease request ∧
        IssuedFor handler call.peer request now lease ∧
          events = issueEvents now lease ++
            [.enforced lease.origin.request (.returned reply)]
  | .timed lease remaining =>
      ∃ request now later, call.request = .requestLease request ∧
        IssuedFor handler call.peer request now lease ∧
          remaining = lease.expiresAt.saturatingDurationSince later ∧
          events = issueEvents now lease ++
            [.enforced lease.origin.request (.returned (.ok .allowed)),
              .timed later]
  | .concluded conclusion =>
      ConcludesWith handler call.peer call.request conclusion.response events
  | .answered response =>
      ∃ before event, events = before ++ [.recorded event] ∧
        ConcludesWith handler call.peer call.request response before
  | .unwound _ => InsertsNothing events

theorem issuedFor_of_issued {handler : AuthorizationHandler}
    {peer : PeerContext} {request : LeaseRequest}
    {observed : ExecutionContext} {issuer next : LeaseIssuer}
    {now : MonotonicTime} {lease : ComputeLease}
    (hpeer : peer.authorizable = some observed)
    (hissued : issuer.Issued handler.policy (provenanceFor request observed)
      now handler.config.leaseTtl next lease) :
    IssuedFor handler peer request now lease := by
  obtain ⟨hconsistent, hobserved⟩ :=
    PeerContext.authorizable_eq_some_iff.mp hpeer
  subst hobserved
  exact
    { consistent := hconsistent
      allowed := hissued.allowed
      origin := hissued.origin
      issuedAt := hissued.issuedAt
      expiresAt := hissued.expiresAt }

theorem InsertsNothing.append {events new : List Happening}
    (hevents : InsertsNothing events) (hnew : InsertsNothing new) :
    InsertsNothing (events ++ new) := by
  intro lease hinserted
  rcases List.mem_append.mp hinserted with hold | hadded
  · exact hevents lease hold
  · exact hnew lease hadded

theorem Withdraws.undecided {call : Call} {lease : ComputeLease}
    {outcome : AuthorizationOutcome}
    (hwithdraws : Withdraws lease call.phase outcome) :
    call.response? = none := by
  unfold Call.response?
  generalize call.phase = phase at hwithdraws
  cases hwithdraws <;> rfl

theorem Explained.insertsNothing_of_undecided
    {handler : AuthorizationHandler} {call : Call} {events : List Happening}
    (hexplained : Explained handler call events)
    (hundecided : call.response? = none) : InsertsNothing events := by
  intro lease
  unfold Explained at hexplained
  unfold Call.response? at hundecided
  cases hphase : call.phase with
  | arrived =>
      simp only [hphase] at hexplained
      simp [hexplained]
  | issued other =>
      simp only [hphase] at hexplained
      rcases hexplained with ⟨_, _, _, _, hevents⟩
      simp [hevents, issueEvents]
  | enforced other reply =>
      simp only [hphase] at hexplained
      rcases hexplained with ⟨_, _, _, _, hevents⟩
      simp [hevents, issueEvents]
  | timed other remaining =>
      simp only [hphase] at hexplained
      rcases hexplained with ⟨_, _, _, _, _, _, hevents⟩
      simp [hevents, issueEvents]
  | concluded conclusion => simp [hphase] at hundecided
  | answered response => simp [hphase] at hundecided
  | unwound held => simp [hphase] at hundecided

/-- Responses which say nothing about a particular lease. -/
def IsPlain : AgentResponse → Prop
  | .leaseGranted _ => False
  | .leaseReleased _ => False
  | _ => True

theorem isPlain_issueFailure (failure : IssueFailure) :
    IsPlain failure.conclude.response := by
  cases failure <;> trivial

theorem releaseConclusion_response {revocation : RevocationOutcome}
    {backend : Option (Completion BackendReply)} {conclusion : Conclusion}
    (hreturned : releaseConclusion revocation backend =
      .returned conclusion) :
    conclusion.response = .leaseReleased .released := by
  unfold releaseConclusion at hreturned
  split at hreturned
  · cases hreturned
    rfl
  · cases hreturned
    rfl
  · contradiction

theorem response?_releaseConclusion (call : Call)
    (revocation : RevocationOutcome)
    (backend : Option (Completion BackendReply)) :
    (call.advanceTo (.ofCompletion
        (releaseConclusion revocation backend))).response? =
      if backend = some .panicked then some (.error .internal)
      else some (.leaseReleased .released) := by
  unfold releaseConclusion
  split
  · rfl
  · rfl
  · rfl

theorem explained_of_isPlain {handler : AuthorizationHandler}
    {call : Call} {conclusion : Conclusion} {events : List Happening}
    (hplain : IsPlain conclusion.response)
    (hnothing : InsertsNothing events) :
    Explained handler (call.advanceTo (.concluded conclusion)) events := by
  simp only [Explained, Call.advanceTo, ConcludesWith]
  cases hresponse : conclusion.response with
  | leaseGranted view =>
      rw [hresponse] at hplain
      exact hplain.elim
  | leaseReleased outcome =>
      rw [hresponse] at hplain
      exact hplain.elim
  | leaseDenied reason => exact hnothing
  | status status => exact hnothing
  | error code => exact hnothing

theorem insertsNothing_of_concludesWith {handler : AuthorizationHandler}
    {peer : PeerContext} {asked : ClientRequest} {response : AgentResponse}
    {events : List Happening}
    (hconcludes : ConcludesWith handler peer asked response events)
    (hnot : ∀ view, response ≠ .leaseGranted view) :
    InsertsNothing events := by
  cases response with
  | leaseGranted view => exact (hnot view rfl).elim
  | leaseDenied reason => exact hconcludes
  | leaseReleased outcome =>
      cases outcome with
      | released => exact hconcludes.1
      | refused =>
          intro lease hinserted
          obtain ⟨now, heq⟩ := hconcludes _ hinserted
          contradiction
  | status status => exact hconcludes
  | error code => exact hconcludes

theorem CallTransition.explained {handler : AuthorizationHandler}
    {state next : LeaseState} {call : Call} {action : CallAction}
    {phase : Phase} {events new : List Happening}
    (htransition : CallTransition handler state call action next phase new)
    (hexplained : Explained handler call events) :
    Explained handler (call.advanceTo phase) (events ++ new) := by
  cases htransition with
  | status harrived hrequest =>
      simp only [Explained, harrived] at hexplained
      exact explained_of_isPlain trivial
        (by simp [hexplained, InsertsNothing])
  | requestRefused harrived hrequest hpeer =>
      simp only [Explained, harrived] at hexplained
      exact explained_of_isPlain trivial
        (by simp [hexplained, InsertsNothing])
  | issued harrived hrequest hpeer hroom hissued =>
      simp only [Explained, harrived] at hexplained
      subst hexplained
      exact ⟨_, _, hrequest, issuedFor_of_issued hpeer hissued, rfl⟩
  | issueFailed harrived hrequest hpeer hfailed =>
      simp only [Explained, harrived] at hexplained
      exact explained_of_isPlain (isPlain_issueFailure _)
        (by simp [hexplained, InsertsNothing])
  | issuePanicked harrived hrequest hpeer hpanicked =>
      simp only [Explained, harrived] at hexplained
      intro lease
      simp [hexplained]
  | enforced hissued =>
      simp only [Explained, hissued] at hexplained
      rcases hexplained with ⟨request, now, hrequest, hfor, hevents⟩
      exact ⟨request, now, hrequest, hfor, by rw [hevents]⟩
  | enforcePanicked hissued =>
      have hundecided : call.response? = none := by
        rw [Call.response?, hissued]
      have hbefore := hexplained.insertsNothing_of_undecided hundecided
      exact hbefore.append (by simp [InsertsNothing])
  | timed henforced =>
      simp only [Explained, henforced] at hexplained
      rcases hexplained with ⟨request, now, hrequest, hfor, hevents⟩
      refine ⟨request, now, _, hrequest, hfor, rfl, ?_⟩
      rw [hevents, List.append_assoc, List.singleton_append]
  | granted htimed hpositive =>
      simp only [Explained, htimed] at hexplained
      obtain ⟨request, now, later, hrequest, hfor, hremaining, hevents⟩ :=
        hexplained
      refine ⟨request, now, later, _, hrequest, ⟨hfor, ?_, hpositive⟩, ?_⟩
      · rw [hremaining]
      · rw [hevents]
        rfl
  | withdrawn hwithdraws =>
      have hbefore :=
        hexplained.insertsNothing_of_undecided hwithdraws.undecided
      exact hbefore.append (by simp [InsertsNothing])
  | releaseRefusedUnlocked harrived hrequest hpeer =>
      simp only [Explained, harrived] at hexplained
      simp [Explained, Call.advanceTo, ConcludesWith, hexplained]
  | releaseRefused harrived hrequest hpeer hnot hrefused =>
      simp only [Explained, harrived] at hexplained
      simp [Explained, Call.advanceTo, ConcludesWith, hrefused, hexplained]
  | released harrived hrequest hpeer hreleasable =>
      simp only [Explained, harrived] at hexplained
      have hnothing : ∀ {id reply resource now}, InsertsNothing (events ++
          (Happening.pruned now :: .released id ::
            (Option.map (Happening.backendRevoked resource)
              reply).toList)) := by
        intro id reply resource now lease
        cases reply <;> simp [hexplained]
      cases hcompletion : releaseConclusion _ _ with
      | returned conclusion =>
          have hresponse := releaseConclusion_response hcompletion
          simp only [Explained, Phase.ofCompletion, Call.advanceTo,
            ConcludesWith, hresponse]
          exact ⟨hnothing, _, hrequest, by simp⟩
      | panicked => exact hnothing
  | recorded hconcluded =>
      simp only [Explained, hconcluded] at hexplained
      exact ⟨events, _, rfl, hexplained⟩

theorem explained_of_word {handler : AuthorizationHandler}
    {opening : PeerContext × ClientRequest} {call : Call}
    {events : List Happening}
    (hword : handler.program.Word opening call events) :
    Explained handler call events := by
  induction hword with
  | start => rfl
  | act _ hact ih =>
      obtain ⟨phase, hafter, htransition⟩ := reaches_of_act hact
      rw [hafter]
      exact htransition.explained ih

theorem AuthorizationHandler.Runs.explained {handler : AuthorizationHandler}
    {actions : List AgentAction} {agent : AgentState}
    (hruns : handler.Runs actions agent) {i : ℕ} {call : Call}
    (hcall : agent.sessions[i]? = some call) :
    Explained handler call (agent.wordOf i) := by
  obtain ⟨opening, hword⟩ := (Program.traced_of_run hruns).2 i call hcall
  exact explained_of_word hword

theorem AuthorizationHandler.Runs.exists_call_of_mem
    {handler : AuthorizationHandler} {actions : List AgentAction}
    {agent : AgentState} (hruns : handler.Runs actions agent) {i : ℕ}
    {event : Happening} (hevent : (i, event) ∈ agent.transcript) :
    ∃ call, agent.sessions[i]? = some call := by
  have hlt := (Program.traced_of_run hruns).1 _ hevent
  exact ⟨_, List.getElem?_eq_getElem hlt⟩

/-- A call which did not unwind has done what its response stands for, and
then at most recorded its event. -/
theorem Explained.concludes {handler : AuthorizationHandler} {call : Call}
    {events : List Happening} {response : AgentResponse}
    (hexplained : Explained handler call events)
    (hresponse : call.response? = some response)
    (hreturned : ∀ held, call.phase ≠ .unwound held) :
    ∃ before rest, events = before ++ rest ∧
      ConcludesWith handler call.peer call.request response before ∧
      ∀ event ∈ rest, ∃ recorded, event = .recorded recorded := by
  unfold Explained at hexplained
  unfold Call.response? at hresponse
  cases hphase : call.phase with
  | concluded conclusion =>
      simp only [hphase, Option.some.injEq] at hexplained hresponse
      rw [hresponse] at hexplained
      exact ⟨events, [], by rw [List.append_nil], hexplained, by simp⟩
  | answered answer =>
      simp only [hphase, Option.some.injEq] at hexplained hresponse
      rcases hexplained with ⟨before, event, hevents, hbefore⟩
      rw [hresponse] at hbefore
      exact ⟨before, [.recorded event], hevents, hbefore, by simp⟩
  | unwound held => exact (hreturned held hphase).elim
  | arrived => simp [hphase] at hresponse
  | issued lease => simp [hphase] at hresponse
  | enforced lease reply => simp [hphase] at hresponse
  | timed lease remaining => simp [hphase] at hresponse

theorem ne_unwound_of_response? {call : Call} {response : AgentResponse}
    (hresponse : call.response? = some response)
    (hne : response ≠ .error .internal) (held : Option ComputeLease) :
    call.phase ≠ .unwound held := by
  intro hphase
  unfold Call.response? at hresponse
  rw [hphase] at hresponse
  exact hne (Option.some.inj hresponse).symm

theorem Explained.insertsNothing {handler : AuthorizationHandler}
    {call : Call} {response : AgentResponse} {events : List Happening}
    (hexplained : Explained handler call events)
    (hresponse : call.response? = some response)
    (hnot : ∀ view, response ≠ .leaseGranted view) :
    InsertsNothing events := by
  by_cases hunwound : ∃ held, call.phase = .unwound held
  · rcases hunwound with ⟨held, hphase⟩
    unfold Explained at hexplained
    rw [hphase] at hexplained
    exact hexplained
  · obtain ⟨before, rest, hevents, hconcludes, hrest⟩ :=
      hexplained.concludes hresponse fun held hphase =>
        hunwound ⟨held, hphase⟩
    intro lease hinserted
    rw [hevents] at hinserted
    rcases List.mem_append.mp hinserted with hbefore | hlater
    · exact insertsNothing_of_concludesWith hconcludes hnot lease hbefore
    · obtain ⟨recorded, heq⟩ := hrest _ hlater
      contradiction

/-- The events of a call which is given a lease: the grant, and the recorded
event once the answer is out. -/
theorem Explained.grants {handler : AuthorizationHandler} {call : Call}
    {events : List Happening} {view : LeaseView}
    (hexplained : Explained handler call events)
    (hgranted : call.response? = some (.leaseGranted view)) :
    ∃ request now later lease rest, call.request = .requestLease request ∧
      Grants handler call.peer request now later lease view ∧
      events = grantEvents now later lease ++ rest ∧
      ∀ event ∈ rest, ∃ recorded, event = .recorded recorded := by
  obtain ⟨before, rest, hevents, hconcludes, hrest⟩ :=
    hexplained.concludes hgranted (ne_unwound_of_response? hgranted (by simp))
  rcases hconcludes with ⟨request, now, later, lease, hasked, hgrants, hbefore⟩
  exact ⟨request, now, later, lease, rest, hasked, hgrants,
    by rw [hevents, hbefore], hrest⟩

theorem Explained.released_mem {handler : AuthorizationHandler}
    {call : Call} {events : List Happening}
    (hexplained : Explained handler call events)
    (hreleased : call.response? = some (.leaseReleased .released)) :
    ∃ request, call.request = .releaseLease request ∧
      .released request.leaseId ∈ events := by
  obtain ⟨before, rest, hevents, hconcludes, _⟩ :=
    hexplained.concludes hreleased
      (ne_unwound_of_response? hreleased (by simp))
  rcases hconcludes with ⟨_, request, hasked, hmem⟩
  exact ⟨request, hasked, by simp [hevents, hmem]⟩

theorem Explained.refused {handler : AuthorizationHandler} {call : Call}
    {events : List Happening}
    (hexplained : Explained handler call events)
    (hrefused : call.response? = some (.leaseReleased .refused)) :
    ∀ event ∈ events, (∃ now, event = .pruned now) ∨
      ∃ recorded, event = .recorded recorded := by
  obtain ⟨before, rest, hevents, hconcludes, hrest⟩ :=
    hexplained.concludes hrefused (ne_unwound_of_response? hrefused (by simp))
  intro event hmem
  rw [hevents] at hmem
  rcases List.mem_append.mp hmem with hbefore | hlater
  · exact .inl (hconcludes event hbefore)
  · exact .inr (hrest event hlater)

theorem Explained.grants_of_inserted {handler : AuthorizationHandler}
    {call : Call} {events : List Happening} {lease : ComputeLease}
    (hexplained : Explained handler call events)
    (hinserted : .inserted lease ∈ events) :
    ∃ request now later view rest, call.request = .requestLease request ∧
      Grants handler call.peer request now later lease view ∧
      call.response? = some (.leaseGranted view) ∧
      events = grantEvents now later lease ++ rest := by
  cases hresponse : call.response? with
  | none =>
      have hnothing := hexplained.insertsNothing_of_undecided hresponse
      exact (hnothing lease hinserted).elim
  | some response =>
      by_cases hgranted : ∃ view, response = .leaseGranted view
      · rcases hgranted with ⟨view, heq⟩
        rw [heq] at hresponse
        obtain ⟨request, now, later, other, rest, hasked, hgrants, hevents,
          hrest⟩ := hexplained.grants hresponse
        rw [hevents] at hinserted
        have hsame : lease = other := by
          rcases List.mem_append.mp hinserted with hgrant | hlater
          · simpa [grantEvents] using hgrant
          · obtain ⟨recorded, hrecorded⟩ := hrest _ hlater
            contradiction
        subst hsame
        exact ⟨request, now, later, view, rest, hasked, hgrants, by rw [heq],
          hevents⟩
      · have hnot : ∀ view, response ≠ .leaseGranted view :=
          fun view heq => hgranted ⟨view, heq⟩
        exact (hexplained.insertsNothing hresponse hnot lease
          hinserted).elim

/-! ## The action which decides the response -/

theorem CallTransition.response?_of_some {handler : AuthorizationHandler}
    {state next : LeaseState} {call : Call} {action : CallAction}
    {phase : Phase} {new : List Happening} {response : AgentResponse}
    (htransition : CallTransition handler state call action next phase new)
    (hresponse : call.response? = some response) :
    (call.advanceTo phase).response? = some response := by
  unfold Call.response? at hresponse
  cases htransition with
  | recorded hconcluded =>
      rw [hconcluded] at hresponse
      exact hresponse
  | enforced hissued => simp [hissued] at hresponse
  | enforcePanicked hissued => simp [hissued] at hresponse
  | timed henforced => simp [henforced] at hresponse
  | granted htimed => simp [htimed] at hresponse
  | withdrawn hwithdraws =>
      have hnone := hwithdraws.undecided
      rw [Call.response?] at hnone
      rw [hnone] at hresponse
      contradiction
  | status harrived => simp [harrived] at hresponse
  | requestRefused harrived => simp [harrived] at hresponse
  | issued harrived => simp [harrived] at hresponse
  | issueFailed harrived => simp [harrived] at hresponse
  | issuePanicked harrived => simp [harrived] at hresponse
  | releaseRefusedUnlocked harrived => simp [harrived] at hresponse
  | releaseRefused harrived => simp [harrived] at hresponse
  | released harrived => simp [harrived] at hresponse

/-- The action which decides the response to a release: a refusal at most
prunes, and only a releasable lease is released. -/
theorem CallTransition.release_cases {handler : AuthorizationHandler}
    {state next : LeaseState} {call : Call} {action : CallAction}
    {phase : Phase} {new : List Happening} {outcome : ReleaseOutcome}
    (htransition : CallTransition handler state call action next phase new)
    (hundecided : call.response? = none)
    (hdecides : (call.advanceTo phase).response? =
      some (.leaseReleased outcome)) :
    ∃ request now backend, call.request = .releaseLease request ∧
      action = .release now backend ∧
      (outcome = .refused → next = state ∨ next = state.prune now) ∧
      (outcome = .released → ∃ observed lease,
        call.peer.authorizable = some observed ∧
          Releasable state request observed now lease) := by
  cases htransition with
  | releaseRefusedUnlocked harrived hrequest hpeer =>
      simp only [Call.response?, Call.advanceTo, Option.some.injEq,
        AgentResponse.leaseReleased.injEq] at hdecides
      subst hdecides
      exact ⟨_, _, _, hrequest, rfl, fun _ => .inl rfl, by simp⟩
  | releaseRefused harrived hrequest hpeer hnot hrefused =>
      simp only [Call.response?, Call.advanceTo, hrefused,
        Option.some.injEq, AgentResponse.leaseReleased.injEq] at hdecides
      subst hdecides
      exact ⟨_, _, _, hrequest, rfl, fun _ => .inr rfl, by simp⟩
  | released harrived hrequest hpeer hreleasable =>
      refine ⟨_, _, _, hrequest, rfl, ?_, fun _ => ⟨_, _, hpeer, hreleasable⟩⟩
      intro hrefused
      rw [response?_releaseConclusion, hrefused] at hdecides
      split at hdecides <;> simp at hdecides
  | recorded hconcluded => simp [Call.response?, hconcluded] at hundecided
  | @issueFailed _ _ _ failure =>
      have hplain := isPlain_issueFailure failure
      simp only [Call.response?, Call.advanceTo, Option.some.injEq]
        at hdecides
      rw [hdecides] at hplain
      exact hplain.elim
  | _ => simp [Call.response?, Call.advanceTo, handleStatus] at hdecides

theorem eq_advanceTo_of_advanceTo_eq {call current : Call}
    {phase reached : Phase}
    (hsame : call.advanceTo phase = current.advanceTo reached) :
    current = call.advanceTo current.phase := by
  have hpeer := congrArg Call.peer hsame
  have hrequest := congrArg Call.request hsame
  simp only [Call.advanceTo] at hpeer hrequest
  simp only [Call.advanceTo, hpeer, hrequest]

/-- One action of the run gave the call its response; the call was without one
in the state in which this action was performed. -/
theorem AuthorizationHandler.Runs.exists_deciding_action
    {handler : AuthorizationHandler} {actions : List AgentAction}
    {agent : AgentState} (hruns : handler.Runs actions agent) {i : ℕ}
    {call : Call} {response : AgentResponse}
    (hcall : agent.sessions[i]? = some call)
    (hresponse : call.response? = some response) :
    ∃ before action after state earlier next phase new,
      actions = before ++ .act i action :: after ∧
        handler.Runs before state ∧
        state.sessions[i]? = some (call.advanceTo earlier) ∧
        (call.advanceTo earlier).response? = none ∧
        CallTransition handler state.shared (call.advanceTo earlier) action
          next phase new ∧
        (call.advanceTo phase).response? = some response ∧
        handler.step state (.act i action) =
          some (state.advance i next (call.advanceTo phase) new) := by
  have hinitial : ¬∃ phase,
      handler.initial.sessions[i]? = some (call.advanceTo phase) ∧
        (call.advanceTo phase).response? = some response := by
    simp [AuthorizationHandler.initial, System.initial]
  obtain ⟨before, action, after, state, reached, hsplit, hbefore, hstep, _,
    hnot, phase, hreached, hdecides⟩ :=
    PartialExecution.exists_establishing_step
      (fun agent : AgentState => ∃ phase,
        agent.sessions[i]? = some (call.advanceTo phase) ∧
          (call.advanceTo phase).response? = some response)
      hinitial ⟨call.phase, hcall, hresponse⟩ hruns
  cases action with
  | start opening =>
      have heq : state.enroll (handler.program.start opening) = reached :=
        Option.some.inj hstep
      rw [← heq] at hreached
      rcases System.getElem?_enroll_eq_some_iff.mp hreached with
        ⟨_, hstart⟩ | hold
      · have hnone : (handler.program.start opening).response? = none := rfl
        rw [hstart, hnone] at hdecides
        contradiction
      · exact (hnot ⟨phase, hold, hdecides⟩).elim
  | act j action =>
      obtain ⟨current, next, local', new, hcurrent, hact, hadvance⟩ :=
        step_act_eq_some_iff.mp hstep
      rw [hadvance] at hreached
      rcases (System.getElem?_advance_eq_some_iff hcurrent).mp hreached with
        ⟨hi, hlocal⟩ | ⟨_, hold⟩
      · subst hi
        obtain ⟨decided, hafter, htransition⟩ := reaches_of_act hact
        have hsame : call.advanceTo phase = current.advanceTo decided :=
          hlocal.trans hafter
        have hearlier : current = call.advanceTo current.phase :=
          eq_advanceTo_of_advanceTo_eq hsame
        have hundecided : current.response? = none := by
          cases hresponded : current.response? with
          | none => rfl
          | some other =>
              have hkept := htransition.response?_of_some hresponded
              rw [← hsame, hdecides] at hkept
              rw [Option.some.inj hkept] at hnot
              exact (hnot ⟨current.phase, hearlier ▸ hcurrent,
                hearlier ▸ hresponded⟩).elim
        have hphase : phase = decided := congrArg Call.phase hsame
        subst hphase
        rw [hearlier] at hcurrent hundecided htransition
        refine ⟨before, action, after, state, current.phase, next, phase,
          new, hsplit, hbefore, hcurrent, hundecided, htransition, hdecides,
          ?_⟩
        rw [hstep, hadvance, ← hlocal]
      · exact (hnot ⟨phase, hold, hdecides⟩).elim

end Eltanin.Agent
