import Eltanin.AuthorizationConsistency
import Eltanin.PolicyEvidenceScope

/-!
# A refused request leaves no trace but its record

A request which the policy refuses gets no further than the first locked
section: no lease is issued for it, the backend is not asked, and nothing is
stored, whatever the other calls do in between.  A request without trusted
evidence, or for the catch-all action, is refused by every policy which passed
validation.
-/

namespace Eltanin.Agent

open Eltanin.Core Backend Protocol InterleavedSessions AuthorizationHandler

/-- There is no accepted policy under which this request is granted. -/
def Inadmissible (context : ExecutionContext) (request : ComputeRequest) :
    Prop :=
  context.NothingTrusted ∨ request.action = .unknown

theorem deny_of_inadmissible (policy : PolicySet)
    {context : ExecutionContext} {request : ComputeRequest}
    (hinadmissible : Inadmissible context request) :
    (policy.evaluate context request).effect = .deny := by
  rcases hinadmissible with hnothing | hunknown
  · exact policy.deny_of_nothingTrusted request hnothing
  · exact (policy.noMatchingRule_of_unknown context hunknown).1

/-- The issuer consults the policy before it takes a sequence number. -/
theorem issue_of_deny (issuer : LeaseIssuer) {policy : PolicySet}
    {origin : ProvenanceRecord} (now : MonotonicTime) {ttl : Duration}
    (hpositive : ¬ttl.IsZero) (hwithin : ttl.asNanos ≤ issuer.maxTtl.asNanos)
    (hdeny : (policy.evaluate origin.context origin.request).effect =
      .deny) :
    issuer.issue policy origin now ttl =
      (issuer, .returned (.error
        (.denied (policy.evaluate origin.context origin.request)))) := by
  have hle : ¬ttl.asNanos > issuer.maxTtl.asNanos := not_lt.mpr hwithin
  simp [LeaseIssuer.issue, hpositive, hle, hdeny]

/-! ## The history of a refused call -/

/-- The policy denies what this call asks for. -/
def Refused (handler : AuthorizationHandler) (call : Call) : Prop :=
  ∃ request, call.request = .requestLease request ∧
    (handler.policy.evaluate call.peer.observed
      ⟨request.resource, request.action⟩).effect = .deny

/-- The phases of a call for which nothing was ever issued. -/
def Phase.Unissued : Phase → Prop
  | .arrived => True
  | .concluded _ => True
  | .answered _ => True
  | .unwound held => held = none
  | _ => False

def Happening.KeepsOut : Happening → Prop
  | .pruned _ => True
  | .recorded _ => True
  | _ => False

variable {handler : AuthorizationHandler} {state next : LeaseState}
  {call : Call} {action : CallAction} {phase : Phase}
  {new : List Happening}

theorem Refused.not_issued {request : LeaseRequest}
    {observed : ExecutionContext} {issuer after : LeaseIssuer}
    {now : MonotonicTime} {lease : ComputeLease}
    (hrefused : Refused handler call)
    (hrequest : call.request = .requestLease request)
    (hpeer : call.peer.authorizable = some observed)
    (hissued : issuer.Issued handler.policy (provenanceFor request observed)
      now handler.config.leaseTtl after lease) : False := by
  rcases hrefused with ⟨asked, hasked, hdeny⟩
  have hsame : request = asked := by
    rw [hasked] at hrequest
    exact (ClientRequest.requestLease.inj hrequest).symm
  subst hsame
  have hallowed := (issuedFor_of_issued hpeer hissued).allowed
  rw [hdeny] at hallowed
  contradiction

/-- A refused call stays out of the backend and the store at each step. -/
theorem CallTransition.keepsOut (hrefused : Refused handler call)
    (hunissued : call.phase.Unissued)
    (htransition : CallTransition handler state call action next phase new) :
    phase.Unissued ∧ ∀ event ∈ new, event.KeepsOut := by
  cases htransition with
  | status _ _ => exact ⟨trivial, by simp⟩
  | requestRefused _ _ _ => exact ⟨trivial, by simp⟩
  | issued _ hrequest hpeer _ hissued =>
      exact (hrefused.not_issued hrequest hpeer hissued).elim
  | issueFailed _ _ _ _ => exact ⟨trivial, by simp [Happening.KeepsOut]⟩
  | issuePanicked _ _ _ _ => exact ⟨rfl, by simp [Happening.KeepsOut]⟩
  | enforced hissued => simp [hissued, Phase.Unissued] at hunissued
  | enforcePanicked hissued => simp [hissued, Phase.Unissued] at hunissued
  | timed henforced => simp [henforced, Phase.Unissued] at hunissued
  | granted htimed _ => simp [htimed, Phase.Unissued] at hunissued
  | withdrawn hwithdraws =>
      generalize hphase : call.phase = reached at hwithdraws hunissued
      cases hwithdraws <;> exact hunissued.elim
  | releaseRefusedUnlocked _ hrequest _ =>
      rcases hrefused with ⟨request, hasked, _⟩
      simp [hasked] at hrequest
  | releaseRefused _ hrequest _ _ _ =>
      rcases hrefused with ⟨request, hasked, _⟩
      simp [hasked] at hrequest
  | released _ hrequest _ _ =>
      rcases hrefused with ⟨request, hasked, _⟩
      simp [hasked] at hrequest
  | recorded _ => exact ⟨trivial, by simp [Happening.KeepsOut]⟩

theorem keepsOut_of_word {opening : PeerContext × ClientRequest}
    {events : List Happening} (hrefused : Refused handler call)
    (hword : handler.program.Word opening call events) :
    call.phase.Unissued ∧ ∀ event ∈ events, event.KeepsOut := by
  induction hword with
  | start => exact ⟨trivial, by simp⟩
  | @act current _ _ _ _ _ _ _ hact ih =>
      obtain ⟨phase, hafter, htransition⟩ := reaches_of_act hact
      subst hafter
      have hasked : Refused handler current := hrefused
      obtain ⟨hunissued, hbefore⟩ := ih hasked
      obtain ⟨hphase, hnew⟩ := htransition.keepsOut hasked hunissued
      constructor
      · exact hphase
      · intro event hevent
        rcases List.mem_append.mp hevent with hold | hlast
        · exact hbefore event hold
        · exact hnew event hlast

section Runs

variable {actions : List AgentAction} {agent : AgentState}

theorem AuthorizationHandler.Runs.refused_keepsOut
    (hruns : handler.Runs actions agent) {i : ℕ}
    (hcall : agent.sessions[i]? = some call)
    (hrefused : Refused handler call) :
    ∀ event ∈ agent.wordOf i, event.KeepsOut := by
  obtain ⟨opening, hword⟩ := (Program.traced_of_run hruns).2 i call hcall
  exact (keepsOut_of_word hrefused hword).2

theorem AuthorizationHandler.Runs.refused_not_granted
    (hruns : handler.Runs actions agent) {i : ℕ}
    (hcall : agent.sessions[i]? = some call)
    (hrefused : Refused handler call) (view : LeaseView) :
    call.response? ≠ some (.leaseGranted view) := by
  intro hgranted
  obtain ⟨request, now, later, lease, rest, _, _, hword, _⟩ :=
    (hruns.explained hcall).grants hgranted
  have hkept := hruns.refused_keepsOut hcall hrefused (.inserted lease)
    (by simp [hword, grantEvents])
  exact hkept.elim

end Runs

/-- No trusted evidence, no grant: by whatever document `from_document`
accepted, such a request is denied, the issuer stays as it was, and in no run
does a call which makes it reach the backend or the store. -/
theorem no_grant_without_trusted_evidence (policy : PolicySet) :
    (∀ context request, context.NothingTrusted →
      (policy.evaluate context request).effect = .deny) ∧
    (∀ context request, request.action = .unknown →
      (policy.evaluate context request).effect = .deny ∧
        (policy.evaluate context request).reason = .noMatchingRule) ∧
    ∀ context request, Inadmissible context request →
      (∀ (issuer : LeaseIssuer) now ttl, ¬ttl.IsZero →
        ttl.asNanos ≤ issuer.maxTtl.asNanos →
        issuer.issue policy ⟨context, request⟩ now ttl =
          (issuer, .returned (.error
            (.denied (policy.evaluate context request))))) ∧
      ∀ (handler : AuthorizationHandler) actions agent,
        handler.policy = policy → handler.Runs actions agent →
        (∀ (i : ℕ) (call : Call), agent.sessions[i]? = some call →
          call.peer.observed = context →
          call.request = .requestLease ⟨request.resource, request.action⟩ →
          (∀ view, call.response? ≠ some (.leaseGranted view)) ∧
          ∀ event ∈ agent.wordOf i,
            (∀ lease, event ≠ .issued lease) ∧
            (∀ asked reply, event ≠ .enforced asked reply) ∧
            ∀ lease, event ≠ .inserted lease) ∧
        ∀ id lease, agent.shared.get id = some lease →
          lease.origin ≠ ⟨context, request⟩ := by
  refine ⟨fun context request => policy.deny_of_nothingTrusted request,
    fun context request => policy.noMatchingRule_of_unknown context, ?_⟩
  intro context request hinadmissible
  have hdeny := deny_of_inadmissible policy hinadmissible
  constructor
  · intro issuer now ttl hpositive hwithin
    exact issue_of_deny issuer now hpositive hwithin hdeny
  · rintro handler actions agent rfl hruns
    constructor
    · intro i call hcall hobserved hrequest
      have hrefused : Refused handler call :=
        ⟨_, hrequest, by rw [hobserved]; exact hdeny⟩
      refine ⟨hruns.refused_not_granted hcall hrefused, ?_⟩
      intro event hevent
      have hkept := hruns.refused_keepsOut hcall hrefused event hevent
      refine ⟨?_, ?_, ?_⟩
      · rintro lease rfl
        exact hkept
      · rintro asked reply rfl
        exact hkept
      · rintro lease rfl
        exact hkept
    · intro id lease hstored horigin
      have hallowed := (hruns.storedLease hstored).allowed
      rw [horigin, hdeny] at hallowed
      contradiction

end Eltanin.Agent
