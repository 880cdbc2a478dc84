import Eltanin.AuthorizationGrant
import Eltanin.CallOutcomes

/-!
# The answer, the recorded outcome and the decision

The first action of a call fixes everything but the settlement of a lease it
has issued, and the settlement knows only the lease.  So an answer can be
traced back to the state in which the call was first looked at, whatever other
calls did in between, and each call that returns records one event which says
what the client was told.
-/

namespace Eltanin.Agent

open Eltanin.Core Backend Protocol InterleavedSessions AuthorizationHandler

def recordsOf (events : List Happening) : List AuthorizationEvent :=
  events.filterMap fun event =>
    match event with
    | .recorded recorded => some recorded
    | _ => none

theorem recordsOf_append (events new : List Happening) :
    recordsOf (events ++ new) = recordsOf events ++ recordsOf new :=
  List.filterMap_append

/-! ## From the first action to the answer -/

/-- A call which has concluded records that, and then is answered. -/
def Finishes (call : Call) (conclusion : Conclusion) (phase : Phase)
    (records : List AuthorizationEvent) : Prop :=
  phase = .concluded conclusion ∧ records = [] ∨
    phase = .answered conclusion.response ∧
      records = [call.event conclusion]

inductive Settlement (lease : ComputeLease) : Conclusion → Prop
  | granted (remaining : Duration) :
      Settlement lease ⟨.granted lease.id lease.expiresAt,
        .leaseGranted ⟨lease.id, remaining⟩⟩
  | lapsed :
      Settlement lease ⟨.leaseIssueFailed .expiryOverflow, .error .internal⟩
  | refused (result : EnforcementResult) :
      Settlement lease ⟨.enforcementRefused result, .error .internal⟩
  | failed (error : BackendError) :
      Settlement lease ⟨.backendFailed error, .error .internal⟩

/-- Where a call can be, and what it has recorded, when its first action took
it to the phase `first`. -/
def Follows (call : Call) (first phase : Phase)
    (records : List AuthorizationEvent) : Prop :=
  match first with
  | .concluded conclusion => Finishes call conclusion phase records
  | .issued lease =>
      phase.held? = some lease ∧ records = [] ∨
        ∃ conclusion, Settlement lease conclusion ∧
          Finishes call conclusion phase records
  | .unwound held => phase = .unwound held ∧ records = []
  | _ => False

section Follows

variable {handler : AuthorizationHandler} {state next : LeaseState}
  {call : Call} {first phase after : Phase}
  {records : List AuthorizationEvent} {conclusion : Conclusion}
  {lease : ComputeLease} {new : List Happening}

theorem Withdraws.settlement {outcome : AuthorizationOutcome}
    (hwithdraws : Withdraws lease phase outcome) :
    Settlement lease ⟨outcome, .error .internal⟩ := by
  cases hwithdraws with
  | lapsed hzero => exact .lapsed
  | refused hrefused => exact .refused _
  | failed => exact .failed _

theorem Finishes.held?_eq_none
    (hfinishes : Finishes call conclusion phase records) :
    phase.held? = none := by
  rcases hfinishes with ⟨rfl, -⟩ | ⟨rfl, -⟩ <;> rfl

theorem Finishes.record {concluded : Conclusion}
    (hfinishes : Finishes call conclusion (.concluded concluded) records) :
    Finishes call conclusion (.answered concluded.response)
      (records ++ [call.event concluded]) := by
  rcases hfinishes with ⟨hphase, rfl⟩ | ⟨hphase, -⟩
  · rw [Phase.concluded.inj hphase]
    exact .inr ⟨rfl, rfl⟩
  · contradiction

theorem Follows.ne_arrived (hfollows : Follows call first phase records) :
    phase ≠ .arrived := by
  intro harrived
  subst harrived
  cases first <;> simp [Follows, Finishes, Phase.held?] at hfollows

theorem Follows.issued_of_held
    (hfollows : Follows call first phase records)
    (hheld : phase.held? = some lease)
    (hreturned : phase ≠ .unwound (some lease)) :
    first = .issued lease ∧ records = [] := by
  cases first with
  | concluded conclusion =>
      have hnone := Finishes.held?_eq_none hfollows
      rw [hnone] at hheld
      contradiction
  | issued other =>
      rcases hfollows with ⟨hother, hrecords⟩ | ⟨conclusion, -, hfinishes⟩
      · rw [hheld] at hother
        rw [Option.some.inj hother]
        exact ⟨rfl, hrecords⟩
      · have hnone := hfinishes.held?_eq_none
        rw [hnone] at hheld
        contradiction
  | unwound held =>
      rcases hfollows with ⟨rfl, -⟩
      rw [Phase.held?] at hheld
      rw [hheld] at hreturned
      exact (hreturned rfl).elim
  | _ => exact hfollows.elim

theorem Follows.record {concluded : Conclusion}
    (hfollows : Follows call first (.concluded concluded) records) :
    Follows call first (.answered concluded.response)
      (records ++ [call.event concluded]) := by
  cases first with
  | concluded conclusion => exact Finishes.record hfollows
  | issued lease =>
      rcases hfollows with ⟨hheld, -⟩ | ⟨conclusion, hsettles, hfinishes⟩
      · contradiction
      · exact .inr ⟨conclusion, hsettles, hfinishes.record⟩
  | unwound held =>
      rcases hfollows with ⟨hphase, -⟩
      contradiction
  | _ => exact hfollows.elim

theorem Follows.step {action : CallAction}
    (hfollows : Follows call first phase records)
    (htransition : CallTransition handler state (call.advanceTo phase)
      action next after new) :
    Follows call first after (records ++ recordsOf new) := by
  cases htransition with
  | @enforced lease reply hissued =>
      have hphase : phase = .issued lease := hissued
      subst hphase
      rcases hfollows.issued_of_held rfl (by simp) with ⟨rfl, rfl⟩
      exact .inl ⟨rfl, rfl⟩
  | @enforcePanicked lease hissued =>
      have hphase : phase = .issued lease := hissued
      subst hphase
      rcases hfollows.issued_of_held rfl (by simp) with ⟨rfl, rfl⟩
      exact .inl ⟨rfl, rfl⟩
  | @timed now lease henforced =>
      have hphase : phase = .enforced lease (.ok .allowed) := henforced
      subst hphase
      rcases hfollows.issued_of_held rfl (by simp) with ⟨rfl, rfl⟩
      exact .inl ⟨rfl, rfl⟩
  | @granted lease remaining htimed hpositive =>
      have hphase : phase = .timed lease remaining := htimed
      subst hphase
      rcases hfollows.issued_of_held rfl (by simp) with ⟨rfl, rfl⟩
      exact .inr ⟨_, .granted remaining, .inl ⟨rfl, rfl⟩⟩
  | @withdrawn lease outcome hwithdraws =>
      have hphase : (call.advanceTo phase).phase = phase := rfl
      rw [hphase] at hwithdraws
      have hreturned : phase ≠ .unwound (some lease) := by
        intro heq
        rw [heq] at hwithdraws
        cases hwithdraws
      rcases hfollows.issued_of_held hwithdraws.held?_eq hreturned with
        ⟨rfl, rfl⟩
      exact .inr ⟨_, hwithdraws.settlement, .inl ⟨rfl, rfl⟩⟩
  | @recorded conclusion hconcluded =>
      have hphase : phase = .concluded conclusion := hconcluded
      subst hphase
      exact hfollows.record
  | status harrived => exact (hfollows.ne_arrived harrived).elim
  | requestRefused harrived => exact (hfollows.ne_arrived harrived).elim
  | issued harrived => exact (hfollows.ne_arrived harrived).elim
  | issueFailed harrived => exact (hfollows.ne_arrived harrived).elim
  | issuePanicked harrived => exact (hfollows.ne_arrived harrived).elim
  | releaseRefusedUnlocked harrived => exact (hfollows.ne_arrived harrived).elim
  | releaseRefused harrived => exact (hfollows.ne_arrived harrived).elim
  | released harrived => exact (hfollows.ne_arrived harrived).elim

theorem follows_ofCompletion (completion : Completion Conclusion) :
    Follows call (.ofCompletion completion) (.ofCompletion completion)
      [] := by
  cases completion with
  | returned conclusion => exact .inl ⟨rfl, rfl⟩
  | panicked => exact ⟨rfl, rfl⟩

theorem CallTransition.follows_first {action : CallAction}
    (htransition : CallTransition handler state (call.advanceTo .arrived)
      action next first new) :
    Follows call first first (recordsOf new) := by
  cases htransition with
  | status => exact .inl ⟨rfl, rfl⟩
  | requestRefused => exact .inl ⟨rfl, rfl⟩
  | issued => exact .inl ⟨rfl, rfl⟩
  | issueFailed => exact .inl ⟨rfl, rfl⟩
  | issuePanicked => exact ⟨rfl, rfl⟩
  | releaseRefusedUnlocked => exact .inl ⟨rfl, rfl⟩
  | releaseRefused => exact .inl ⟨rfl, rfl⟩
  | @released _ _ request =>
      have hquiet : ∀ {now id resource reply}, recordsOf
          (.pruned now :: .released id ::
            (Option.map (Happening.backendRevoked resource)
              reply).toList) = [] := by
        intro now id resource reply
        cases reply <;> rfl
      rw [hquiet]
      exact follows_ofCompletion _
  | withdrawn hwithdraws => cases hwithdraws
  | enforced hissued => contradiction
  | enforcePanicked hissued => contradiction
  | timed henforced => contradiction
  | granted htimed => contradiction
  | recorded hconcluded => contradiction

end Follows

/-! ## The first action of a call in a run -/

section FirstAction

variable {handler : AuthorizationHandler} {actions : List AgentAction}
  {agent : AgentState} {i : ℕ} {call : Call} {first : Phase}

/-- Call `i` has followed from its first action so far. -/
def Followed (i : ℕ) (call : Call) (first : Phase) (agent : AgentState) :
    Prop :=
  ∃ phase, agent.sessions[i]? = some (call.advanceTo phase) ∧
    Follows call first phase (recordsOf (agent.wordOf i))

theorem Followed.enroll (hfollowed : Followed i call first agent)
    (opened : Call) : Followed i call first (agent.enroll opened) := by
  rcases hfollowed with ⟨phase, hcall, hfollows⟩
  exact ⟨phase, System.getElem?_enroll_eq_some_iff.mpr (.inr hcall),
    hfollows⟩

theorem Followed.advance {j : ℕ} {action : CallAction} {other after : Call}
    {next : LeaseState} {new : List Happening}
    (hfollowed : Followed i call first agent)
    (hother : agent.sessions[j]? = some other)
    (hact : handler.act agent.shared other action =
      some (next, after, new)) :
    Followed i call first (agent.advance j next after new) := by
  rcases hfollowed with ⟨phase, hcall, hfollows⟩
  by_cases heq : i = j
  · subst heq
    rw [hcall] at hother
    have hsame := Option.some.inj hother
    subst hsame
    obtain ⟨reached, hafter, htransition⟩ := reaches_of_act hact
    refine ⟨reached, ?_, ?_⟩
    · rw [System.getElem?_advance_eq_some_iff hcall]
      exact .inl ⟨rfl, hafter.symm⟩
    · rw [System.wordOf_advance_self, recordsOf_append]
      exact hfollows.step htransition
  · refine ⟨phase, ?_, ?_⟩
    · rw [System.getElem?_advance_eq_some_iff hother]
      exact .inr ⟨heq, hcall⟩
    · rw [System.wordOf_advance_ne heq]
      exact hfollows

structure FirstAction (handler : AuthorizationHandler)
    (actions : List AgentAction) (i : ℕ) (call : Call)
    (state : AgentState) (action : CallAction) (first : Phase) : Prop where
  performed : ∃ before after, actions = before ++ .act i action :: after ∧
    handler.Runs before state
  acted : ∃ next new, handler.act state.shared (call.advanceTo .arrived)
    action = some (next, call.advanceTo first, new)

/-- A call which has done anything has done a first action, and has followed
from it ever since. -/
theorem AuthorizationHandler.Runs.exists_firstAction
    (hruns : handler.Runs actions agent)
    (hcall : agent.sessions[i]? = some call)
    (hphase : call.phase ≠ .arrived) :
    ∃ state action first,
      FirstAction handler actions i call state action first ∧
        Follows call first call.phase (recordsOf (agent.wordOf i)) := by
  have hinitial : ¬∃ phase, phase ≠ .arrived ∧
      handler.initial.sessions[i]? = some (call.advanceTo phase) := by
    simp [AuthorizationHandler.initial, System.initial]
  obtain ⟨before, action, after, state, reached, hsplit, hbefore, hstep,
    hafter, hnot, phase, hdone, hreached⟩ :=
    PartialExecution.exists_establishing_step
      (fun agent : AgentState => ∃ phase, phase ≠ .arrived ∧
        agent.sessions[i]? = some (call.advanceTo phase))
      hinitial ⟨call.phase, hphase, hcall⟩ hruns
  cases action with
  | start opening =>
      have heq : state.enroll (handler.program.start opening) = reached :=
        Option.some.inj hstep
      rw [← heq] at hreached
      rcases System.getElem?_enroll_eq_some_iff.mp hreached with
        ⟨-, hstart⟩ | hold
      · exact (hdone (congrArg Call.phase hstart)).elim
      · exact (hnot ⟨phase, hdone, hold⟩).elim
  | act j action =>
      obtain ⟨current, next, local', new, hcurrent, hact, hadvance⟩ :=
        step_act_eq_some_iff.mp hstep
      subst hadvance
      rcases (System.getElem?_advance_eq_some_iff hcurrent).mp hreached with
        ⟨hi, hlocal⟩ | ⟨-, hold⟩
      · subst hi
        subst hlocal
        obtain ⟨decided, hdecided, htransition⟩ := reaches_of_act hact
        have harrived : current = call.advanceTo .arrived := by
          have hearlier := eq_advanceTo_of_advanceTo_eq hdecided
          by_contra hne
          apply hnot
          refine ⟨current.phase, ?_, hearlier ▸ hcurrent⟩
          intro hphase
          rw [hphase] at hearlier
          exact hne hearlier
        subst harrived
        have hphase : phase = decided := congrArg Call.phase hdecided
        subst hphase
        have hword : state.wordOf i = [] :=
          AuthorizationHandler.Runs.explained hbefore hcurrent
        have hstart : Followed i call phase
            (state.advance i next (call.advanceTo phase) new) := by
          refine ⟨phase, hreached, ?_⟩
          rw [System.wordOf_advance_self, hword]
          exact htransition.follows_first
        have hend : Followed i call phase agent :=
          Program.run_invariant (Followed i call phase)
            (fun _ _ hfollowed => hfollowed.enroll _)
            (fun _ _ _ _ _ _ _ hfollowed hother hact =>
              hfollowed.advance hother hact)
            hstart hafter
        rcases hend with ⟨final, hfinal, hfollows⟩
        rw [hcall] at hfinal
        have hlast : call.phase = final :=
          congrArg Call.phase (Option.some.inj hfinal)
        refine ⟨state, action, phase, ?_, hlast ▸ hfollows⟩
        exact
          { performed := ⟨before, after, hsplit, hbefore⟩
            acted := ⟨next, new, hact⟩ }
      · exact (hnot ⟨phase, hdone, hold⟩).elim

/-! ## What the client is told -/

/-- The wire reason of the same name; an explicit allow has none. -/
inductive SameName : DecisionReason → DenialReason → Prop
  | noMatchingRule : SameName .noMatchingRule .noMatchingRule
  | explicitDeny (denied allowed : Finset RuleId) :
      SameName (.explicitDeny denied allowed) .explicitDeny
  | indeterminateEvidence (rules : Finset RuleId) :
      SameName (.indeterminateEvidence rules) .indeterminateEvidence

theorem sameName_denialReasonFor {reason : DecisionReason}
    (hdenies : ∀ rules, reason ≠ .explicitAllow rules) :
    SameName reason (denialReasonFor reason) := by
  cases reason with
  | explicitDeny denied allowed => exact .explicitDeny denied allowed
  | indeterminateEvidence rules => exact .indeterminateEvidence rules
  | noMatchingRule => exact .noMatchingRule
  | explicitAllow rules => exact (hdenies rules rfl).elim

/-- The policy is consulted, since a slot is free, and does not allow. -/
def PolicyRefuses (handler : AuthorizationHandler) (state : LeaseState)
    (now : MonotonicTime) (observed : ExecutionContext)
    (request : LeaseRequest) : Prop :=
  ¬(state.prune now).IsAtCapacity ∧
    (handler.policy.evaluate observed
      ⟨request.resource, request.action⟩).effect = .deny

/-- How the answer to a `RequestLease`, first looked at in `state` at `now`,
agrees with the recorded outcome and with the decision. -/
structure RequestAgrees (handler : AuthorizationHandler)
    (state : LeaseState) (now : MonotonicTime) (peer : PeerContext)
    (request : LeaseRequest) (outcome : AuthorizationOutcome)
    (response : AgentResponse) : Prop where
  denied_iff : (∃ reason, response = .leaseDenied reason) ↔
    peer.authorizable = none ∨ ∃ observed,
      peer.authorizable = some observed ∧
        PolicyRefuses handler state now observed request
  of_peer : peer.authorizable = none →
    outcome = .peerNotAuthorizable ∧
      response = .leaseDenied .indeterminateEvidence
  of_policy : ∀ observed, peer.authorizable = some observed →
    PolicyRefuses handler state now observed request →
      let decision := handler.policy.evaluate observed
        ⟨request.resource, request.action⟩
      outcome = .policyDenied decision ∧
        ∃ reason, SameName decision.reason reason ∧
          response = .leaseDenied reason
  granted_iff : ∀ id, (∃ remaining, response = .leaseGranted ⟨id, remaining⟩)
    ↔ ∃ expiresAt, outcome = .granted id expiresAt
  otherwise : (∀ reason, response ≠ .leaseDenied reason) →
    (∀ view, response ≠ .leaseGranted view) →
      response = .error .internal ∧
        ((∃ outstanding, outcome = .capacityExhausted outstanding) ∨
          (∃ error, outcome = .leaseIssueFailed error) ∨
          (∃ result, outcome = .enforcementRefused result) ∨
          ∃ error, outcome = .backendFailed error)

structure ReleaseAgrees (outcome : AuthorizationOutcome)
    (response : AgentResponse) : Prop where
  released_iff : response = .leaseReleased .released ↔
    ∃ revocation backend, outcome = .released revocation backend
  otherwise : response ≠ .leaseReleased .released →
    response = .leaseReleased .refused

/-- The settlement of an issued lease: the policy has allowed. -/
theorem Settlement.requestAgrees {state : LeaseState} {now : MonotonicTime}
    {request : LeaseRequest} {observed : ExecutionContext}
    {lease : ComputeLease} {conclusion : Conclusion}
    (hsettles : Settlement lease conclusion)
    (hpeer : call.peer.authorizable = some observed)
    (hallowed : (handler.policy.evaluate observed
      ⟨request.resource, request.action⟩).effect = .allow) :
    RequestAgrees handler state now call.peer request conclusion.outcome
      conclusion.response := by
  have hnot : ∀ other, call.peer.authorizable = some other →
      ¬PolicyRefuses handler state now other request := by
    intro other hother hrefuses
    rw [hpeer] at hother
    rw [← Option.some.inj hother, PolicyRefuses, hallowed] at hrefuses
    exact Effect.noConfusion hrefuses.2
  have hdenied : ∀ reason, conclusion.response ≠ .leaseDenied reason := by
    intro reason
    cases hsettles <;> simp
  constructor
  · constructor
    · rintro ⟨reason, hreason⟩
      exact (hdenied reason hreason).elim
    · rintro (hnone | ⟨other, hother, hrefuses⟩)
      · rw [hpeer] at hnone
        contradiction
      · exact (hnot other hother hrefuses).elim
  · intro hnone
    rw [hpeer] at hnone
    contradiction
  · intro other hother hrefuses
    exact (hnot other hother hrefuses).elim
  · intro id
    cases hsettles <;> simp
  · intro _ hgranted
    cases hsettles with
    | granted remaining => exact (hgranted _ rfl).elim
    | lapsed => exact ⟨rfl, .inr (.inl ⟨_, rfl⟩)⟩
    | refused result => exact ⟨rfl, .inr (.inr (.inl ⟨_, rfl⟩))⟩
    | failed error => exact ⟨rfl, .inr (.inr (.inr ⟨_, rfl⟩))⟩

theorem requestAgrees_of_peer {state : LeaseState} {now : MonotonicTime}
    {request : LeaseRequest} (hpeer : call.peer.authorizable = none) :
    RequestAgrees handler state now call.peer request .peerNotAuthorizable
      (.leaseDenied .indeterminateEvidence) where
  denied_iff := ⟨fun _ => .inl hpeer, fun _ => ⟨_, rfl⟩⟩
  of_peer _ := ⟨rfl, rfl⟩
  of_policy := by
    intro observed hobserved
    rw [hpeer] at hobserved
    contradiction
  granted_iff := by simp
  otherwise := by simp

theorem requestAgrees_of_failure {state : LeaseState} {now : MonotonicTime}
    {request : LeaseRequest} {observed : ExecutionContext}
    {failure : IssueFailure}
    (hmax : state.issuer.maxTtl = handler.config.leaseTtl)
    (hpeer : call.peer.authorizable = some observed)
    (hfailed : handler.issueReservingCapacity state
      (provenanceFor request observed) now =
        (state.prune now, .returned (.error failure))) :
    RequestAgrees handler state now call.peer request
      failure.conclude.outcome failure.conclude.response := by
  have hcases := failure_of_issueReservingCapacity hmax hfailed
  by_cases hrefuses : PolicyRefuses handler state now observed request
  · have hdeny : (handler.policy.evaluate observed
        ⟨request.resource, request.action⟩).effect ≠ .allow := by
      rw [hrefuses.2]
      simp
    have hfailure : failure = .denied (handler.policy.evaluate observed
        ⟨request.resource, request.action⟩) := by
      rcases hcases with ⟨hfull, -⟩ | ⟨-, -, heq⟩ | ⟨-, hallow, -⟩
      · exact (hrefuses.1 hfull).elim
      · exact heq
      · exact (hdeny hallow).elim
    subst hfailure
    have hname := sameName_denialReasonFor
      (PolicySet.reason_ne_explicitAllow hdeny)
    constructor
    · exact ⟨fun _ => .inr ⟨observed, hpeer, hrefuses⟩, fun _ => ⟨_, rfl⟩⟩
    · intro hnone
      rw [hpeer] at hnone
      contradiction
    · intro other hother _
      rw [hpeer] at hother
      rw [← Option.some.inj hother]
      exact ⟨rfl, _, hname, rfl⟩
    · simp [IssueFailure.conclude]
    · intro hnot
      exact (hnot _ rfl).elim
  · have hinternal : failure.conclude.response = .error .internal ∧
        ((∃ outstanding,
            failure.conclude.outcome = .capacityExhausted outstanding) ∨
          ∃ error, failure.conclude.outcome = .leaseIssueFailed error) := by
      rcases hcases with ⟨-, rfl⟩ | ⟨hroom, hdeny, -⟩ | ⟨-, -, rfl⟩
      · exact ⟨rfl, .inl ⟨_, rfl⟩⟩
      · apply (hrefuses ⟨hroom, ?_⟩).elim
        cases heffect : (handler.policy.evaluate observed
            ⟨request.resource, request.action⟩).effect with
        | deny => rfl
        | allow => exact (hdeny heffect).elim
      · exact ⟨rfl, .inr ⟨_, rfl⟩⟩
    rcases hinternal with ⟨hresponse, houtcome⟩
    have hnot : ∀ other, call.peer.authorizable = some other →
        ¬PolicyRefuses handler state now other request := by
      intro other hother
      rw [hpeer] at hother
      rwa [← Option.some.inj hother]
    constructor
    · rw [hresponse]
      simp only [reduceCtorEq, exists_false, false_iff, hpeer, false_or]
      rintro ⟨other, hother, hrefused⟩
      exact hrefuses (Option.some.inj hother ▸ hrefused)
    · intro hnone
      rw [hpeer] at hnone
      contradiction
    · intro other hother hrefused
      exact (hnot other hother hrefused).elim
    · intro id
      rw [hresponse]
      rcases houtcome with ⟨outstanding, heq⟩ | ⟨error, heq⟩ <;> simp [heq]
    · intro _ _
      refine ⟨hresponse, ?_⟩
      rcases houtcome with hcapacity | hissue
      · exact .inl hcapacity
      · exact .inr (.inl hissue)

theorem Follows.answered {response : AgentResponse}
    {records : List AuthorizationEvent}
    (hfollows : Follows call first (.answered response) records) :
    ∃ conclusion, (first = .concluded conclusion ∨
        ∃ lease, first = .issued lease ∧ Settlement lease conclusion) ∧
      response = conclusion.response ∧ records = [call.event conclusion] := by
  have hfinished : ∀ {conclusion},
      Finishes call conclusion (.answered response) records →
        response = conclusion.response ∧
          records = [call.event conclusion] := by
    intro conclusion hfinishes
    rcases hfinishes with ⟨hphase, -⟩ | ⟨hphase, hrecords⟩
    · contradiction
    · exact ⟨Phase.answered.inj hphase, hrecords⟩
  cases first with
  | concluded conclusion => exact ⟨conclusion, .inl rfl, hfinished hfollows⟩
  | issued lease =>
      rcases hfollows with ⟨hheld, -⟩ | ⟨conclusion, hsettles, hfinishes⟩
      · contradiction
      · exact ⟨conclusion, .inr ⟨lease, rfl, hsettles⟩, hfinished hfinishes⟩
  | unwound held =>
      rcases hfollows with ⟨hphase, -⟩
      contradiction
  | _ => exact hfollows.elim

theorem Follows.records_eq_nil {phase : Phase}
    {records : List AuthorizationEvent}
    (hfollows : Follows call first phase records)
    (hnot : ∀ response, phase ≠ .answered response) : records = [] := by
  have hunfinished : ∀ {conclusion},
      Finishes call conclusion phase records → records = [] := by
    intro conclusion hfinishes
    rcases hfinishes with ⟨-, hrecords⟩ | ⟨hphase, -⟩
    · exact hrecords
    · exact (hnot _ hphase).elim
  cases first with
  | concluded conclusion => exact hunfinished hfollows
  | issued lease =>
      rcases hfollows with ⟨-, hrecords⟩ | ⟨conclusion, -, hfinishes⟩
      · exact hrecords
      · exact hunfinished hfinishes
  | unwound held => exact hfollows.2
  | _ => exact hfollows.elim

theorem FirstAction.requestAgrees {state : AgentState} {action : CallAction}
    {conclusion : Conclusion} {request : LeaseRequest}
    (hfirst : FirstAction handler actions i call state action first)
    (hrequest : call.request = .requestLease request)
    (hfrom : first = .concluded conclusion ∨
      ∃ lease, first = .issued lease ∧ Settlement lease conclusion) :
    ∃ now, action = .issue now ∧
      RequestAgrees handler state.shared now call.peer request
        conclusion.outcome conclusion.response := by
  rcases hfirst with ⟨⟨before, after, -, hruns⟩, next, new, hact⟩
  obtain ⟨reached, hreached, htransition⟩ := reaches_of_act hact
  have hphase : first = reached := congrArg Call.phase hreached
  subst hphase
  have hasked : ∀ {asked}, (call.advanceTo .arrived).request =
      .requestLease asked → asked = request := by
    intro asked hsame
    exact (ClientRequest.requestLease.inj (hrequest.symm.trans hsame)).symm
  have hother : ∀ {asked}, (call.advanceTo .arrived).request = asked →
      asked = .requestLease request := by
    intro asked hsame
    exact hsame.symm.trans hrequest
  cases htransition with
  | requestRefused harrived hsame hpeer =>
      rcases hfrom with hconcluded | ⟨lease, hissued, -⟩
      · have hconclusion := Phase.concluded.inj hconcluded
        subst hconclusion
        exact ⟨_, rfl, requestAgrees_of_peer hpeer⟩
      · contradiction
  | issueFailed harrived hsame hpeer hfailed =>
      rcases hfrom with hconcluded | ⟨lease, hissued, -⟩
      · have hconclusion := Phase.concluded.inj hconcluded
        subst hconclusion
        rw [hasked hsame] at hfailed
        exact ⟨_, rfl, requestAgrees_of_failure
          (AuthorizationHandler.Runs.maxTtl_eq hruns) hpeer hfailed⟩
      · contradiction
  | issued harrived hsame hpeer hroom hissued =>
      rcases hfrom with hconcluded | ⟨lease, -, hsettles⟩
      · contradiction
      · have hallowed := hissued.allowed
        rw [hasked hsame] at hallowed
        exact ⟨_, rfl, hsettles.requestAgrees hpeer hallowed⟩
  | issuePanicked =>
      rcases hfrom with hconcluded | ⟨lease, hissued, -⟩ <;> contradiction
  | withdrawn hwithdraws => cases hwithdraws
  | status harrived hsame => exact nomatch hother hsame
  | releaseRefusedUnlocked harrived hsame => exact nomatch hother hsame
  | releaseRefused harrived hsame => exact nomatch hother hsame
  | released harrived hsame => exact nomatch hother hsame
  | enforced hissued => contradiction
  | enforcePanicked hissued => contradiction
  | timed henforced => contradiction
  | granted htimed => contradiction
  | recorded hconcluded => contradiction

theorem FirstAction.releaseAgrees {state : AgentState} {action : CallAction}
    {conclusion : Conclusion} {request : ReleaseRequest}
    (hfirst : FirstAction handler actions i call state action first)
    (hrequest : call.request = .releaseLease request)
    (hfrom : first = .concluded conclusion ∨
      ∃ lease, first = .issued lease ∧ Settlement lease conclusion) :
    ReleaseAgrees conclusion.outcome conclusion.response := by
  rcases hfirst with ⟨-, next, new, hact⟩
  have hother : ∀ {asked}, (call.advanceTo .arrived).request = asked →
      asked = .releaseLease request := by
    intro asked hsame
    exact hsame.symm.trans hrequest
  rcases hfrom with hconcluded | ⟨lease, hissued, -⟩
  · subst hconcluded
    have hconcludes := concludes_of_act hact rfl
    cases hconcludes with
    | releaseRefusedUnlocked => constructor <;> simp
    | releaseUnknown => constructor <;> simp
    | releaseRefused => constructor <;> simp
    | released => constructor <;> simp
    | withdrawn hwithdraws => cases hwithdraws
    | status hsame => exact nomatch hother hsame
    | requestRefused hsame => exact nomatch hother hsame
    | issueFailed hsame => exact nomatch hother hsame
    | granted htimed => contradiction
  · obtain ⟨reached, hreached, htransition⟩ := reaches_of_act hact
    have hphase : first = reached := congrArg Call.phase hreached
    have hheld : reached.held? = some lease := by
      rw [← hphase, hissued, Phase.held?]
    clear hreached hphase
    cases htransition with
    | issued harrived hsame => exact nomatch hother hsame
    | released =>
        rw [Phase.held?_ofCompletion] at hheld
        contradiction
    | withdrawn hwithdraws => cases hwithdraws
    | _ => contradiction

/-- Every call that returns has recorded exactly one event, which agrees with
the answer, and through it with the decision; no other call has recorded
anything. -/
theorem AuthorizationHandler.Runs.answers_agree
    (hruns : handler.Runs actions agent)
    (hcall : agent.sessions[i]? = some call) :
    ((∀ response, call.phase ≠ .answered response) →
      recordsOf (agent.wordOf i) = []) ∧
    ∀ response, call.phase = .answered response →
      ∃ outcome, recordsOf (agent.wordOf i) =
          [⟨call.operation, call.request, call.peer, outcome, response⟩] ∧
        (∀ request, call.request = .requestLease request →
          ∃ state now first,
            FirstAction handler actions i call state (.issue now) first ∧
            RequestAgrees handler state.shared now call.peer request outcome
              response) ∧
        ∀ request, call.request = .releaseLease request →
          ReleaseAgrees outcome response := by
  by_cases harrived : call.phase = .arrived
  · have hexplained := hruns.explained hcall
    simp only [Explained, harrived] at hexplained
    simp [hexplained, recordsOf, harrived]
  · obtain ⟨state, action, first, hfirst, hfollows⟩ :=
      hruns.exists_firstAction hcall harrived
    refine ⟨hfollows.records_eq_nil, ?_⟩
    intro response hanswered
    rw [hanswered] at hfollows
    rcases hfollows.answered with ⟨conclusion, hfrom, rfl, hrecords⟩
    refine ⟨conclusion.outcome, hrecords, ?_, ?_⟩
    · intro request hrequest
      rcases hfirst.requestAgrees hrequest hfrom with ⟨now, rfl, hagrees⟩
      exact ⟨state, now, first, hfirst, hagrees⟩
    · intro request hrequest
      exact hfirst.releaseAgrees hrequest hfrom

end FirstAction

theorem grantedCall_answers_agree :
    ∃ outcome, recordsOf (grantedState.wordOf 0) =
        [⟨.requestLease, sampleLeaseRequest, workerPeer .unsupported,
          outcome, .leaseGranted sampleView⟩] ∧
      ∃ state now first,
        FirstAction sampleHandler (grantActions .unsupported) 0 grantedCall
          state (.issue now) first ∧
        RequestAgrees sampleHandler state.shared now grantedCall.peer
          ⟨sampleResource, .compute⟩ outcome (.leaseGranted sampleView) := by
  rcases runs_grantedState.answers_agree getElem?_grantedState with
    ⟨-, hanswers⟩
  rcases hanswers _ rfl with ⟨outcome, hrecords, hrequest, -⟩
  exact ⟨outcome, hrecords, hrequest _ rfl⟩

end Eltanin.Agent
