import Eltanin.LeaseIssuance
import Eltanin.ProvenCapability

/-!
# Everything the policy allows, the daemon can enforce

`eltanin-agentd` has no discovery of its own: it seeds its backend with the
resources its policy names.  The loop which lists them keeps the first
occurrence of each, so nothing a rule names is missing and nothing else is
there.  An allow comes from a rule about the very resource of the request, so
in the daemon no enforcement is refused.
-/

namespace Eltanin.Core

/-! ## The resources of a policy -/

theorem mem_resourcesOfRules {seen : Finset ResourceIdentity}
    {rules : List Rule} {resource : ResourceIdentity} :
    resource ∈ resourcesOfRules seen rules ↔
      resource ∉ seen ∧ resource ∈ rules.map Rule.resource := by
  induction rules generalizing seen with
  | nil => simp [resourcesOfRules]
  | cons rule rest ih =>
      unfold resourcesOfRules
      by_cases hseen : rule.resource ∈ seen
      · rw [if_pos hseen, ih, List.map_cons, List.mem_cons]
        constructor
        · rintro ⟨hfresh, hlater⟩
          exact ⟨hfresh, .inr hlater⟩
        · rintro ⟨hfresh, hfirst | hlater⟩
          · exact (hfresh (hfirst ▸ hseen)).elim
          · exact ⟨hfresh, hlater⟩
      · rw [if_neg hseen, List.mem_cons, ih, Finset.mem_insert, not_or,
          List.map_cons, List.mem_cons]
        constructor
        · rintro (hfirst | ⟨⟨hne, hfresh⟩, hlater⟩)
          · exact ⟨hfirst ▸ hseen, .inl hfirst⟩
          · exact ⟨hfresh, .inr hlater⟩
        · rintro ⟨hfresh, hfirst | hlater⟩
          · exact .inl hfirst
          · by_cases heq : resource = rule.resource
            · exact .inl heq
            · exact .inr ⟨⟨heq, hfresh⟩, hlater⟩

/-- One comes before the other in the list exactly when it occurs first among
the rules. -/
def OccursEarlier (rules : List Rule) (first second : ResourceIdentity) :
    Prop :=
  (rules.map Rule.resource).idxOf first <
    (rules.map Rule.resource).idxOf second

theorem OccursEarlier.cons {rule : Rule} {rest : List Rule}
    {first second : ResourceIdentity}
    (hearlier : OccursEarlier rest first second)
    (hfirst : first ≠ rule.resource) (hsecond : second ≠ rule.resource) :
    OccursEarlier (rule :: rest) first second := by
  unfold OccursEarlier at hearlier ⊢
  rw [List.map_cons, List.idxOf_cons_ne _ hfirst.symm,
    List.idxOf_cons_ne _ hsecond.symm]
  omega

theorem pairwise_resourcesOfRules (seen : Finset ResourceIdentity)
    (rules : List Rule) :
    (resourcesOfRules seen rules).Pairwise (OccursEarlier rules) := by
  induction rules generalizing seen with
  | nil => exact List.Pairwise.nil
  | cons rule rest ih =>
      -- what the rest of the loop lists is not the resource of this rule
      have hrest : ∀ later : Finset ResourceIdentity,
          rule.resource ∈ later →
          (resourcesOfRules later rest).Pairwise
            (OccursEarlier (rule :: rest)) := by
        intro later hmem
        refine (ih later).imp_of_mem ?_
        intro first second hfirst hsecond hearlier
        apply hearlier.cons
        · intro heq
          exact (mem_resourcesOfRules.mp hfirst).1 (heq ▸ hmem)
        · intro heq
          exact (mem_resourcesOfRules.mp hsecond).1 (heq ▸ hmem)
      unfold resourcesOfRules
      by_cases hseen : rule.resource ∈ seen
      · rw [if_pos hseen]
        exact hrest seen hseen
      · rw [if_neg hseen]
        refine List.pairwise_cons.mpr
          ⟨?_, hrest _ (Finset.mem_insert_self _ _)⟩
        intro other hother
        have hne : other ≠ rule.resource := by
          intro heq
          have hfresh := (mem_resourcesOfRules.mp hother).1
          exact hfresh (heq ▸ Finset.mem_insert_self _ _)
        unfold OccursEarlier
        rw [List.map_cons, List.idxOf_cons_self,
          List.idxOf_cons_ne _ hne.symm]
        omega

end Eltanin.Core

namespace Eltanin.Agent

open Eltanin.Core Backend Protocol InterleavedSessions PartialExecution
  AuthorizationHandler Agent.Composition

/-! ## The seeding -/

def seededResource (resource : ResourceIdentity) : ProtectedResource where
  identity := resource
  capabilities := .new [.deviceEnforce, .deviceRevoke]
  memory := .notReportable

/-- The backend which `eltanin-agentd` composes its handler with. -/
def agentdBackend (policy : PolicySet) : FakeBackend :=
  policy.resources.foldl
    (fun backend resource => backend.insert (seededResource resource)) .new

theorem lookup_resources_seeded (resources : List ResourceIdentity)
    (backend : FakeBackend) (resource : ResourceIdentity) :
    (resources.foldl (fun backend resource =>
        backend.insert (seededResource resource)) backend).resources.lookup
          resource =
      if resource ∈ resources then some (seededResource resource)
      else backend.resources.lookup resource := by
  induction resources generalizing backend with
  | nil => simp
  | cons first rest ih =>
      rw [List.foldl_cons, ih]
      by_cases hrest : resource ∈ rest
      · simp [hrest]
      · by_cases heq : resource = first
        · subst heq
          simp [hrest, FakeBackend.insert, seededResource]
        · have hne : resource ≠ (seededResource first).identity := heq
          simp [hrest, heq, FakeBackend.insert, AList.lookup_insert_ne hne]

theorem scriptedEnforcement_seeded (resources : List ResourceIdentity)
    (backend : FakeBackend) :
    (resources.foldl (fun backend resource =>
        backend.insert (seededResource resource))
          backend).scriptedEnforcement =
      backend.scriptedEnforcement := by
  induction resources generalizing backend with
  | nil => rfl
  | cons first rest ih => rw [List.foldl_cons, ih, FakeBackend.insert]

section Seeded

variable {policy : PolicySet} {resource : ResourceIdentity}

theorem mem_resources_iff :
    resource ∈ policy.resources ↔
      ∃ rule ∈ policy.document.rules, rule.resource = resource := by
  unfold PolicySet.resources
  rw [mem_resourcesOfRules, List.mem_map]
  simp

theorem observe_agentdBackend_of_named
    (hnamed : ∃ rule ∈ policy.document.rules, rule.resource = resource) :
    (agentdBackend policy).observe resource =
      .ok (seededResource resource) := by
  rw [FakeBackend.observe_eq_ok_iff, agentdBackend, lookup_resources_seeded,
    if_pos (mem_resources_iff.mpr hnamed)]

theorem observe_agentdBackend_of_unnamed
    (hunnamed : ∀ rule ∈ policy.document.rules, rule.resource ≠ resource) :
    (agentdBackend policy).observe resource =
      .error (.unavailable resource) := by
  have hnot : resource ∉ policy.resources := by
    rw [mem_resources_iff]
    rintro ⟨rule, hrule, hsame⟩
    exact hunnamed rule hrule hsame
  unfold FakeBackend.observe agentdBackend
  rw [lookup_resources_seeded, if_neg hnot, FakeBackend.new]
  rfl

theorem enforce_agentdBackend_of_allowed {context : ExecutionContext}
    {request : ComputeRequest}
    (hallowed : (policy.evaluate context request).effect = .allow) :
    (agentdBackend policy).enforce request = .ok .allowed := by
  let origin : ProvenanceRecord := ⟨context, request⟩
  have hallow : (policy.evaluate origin.context origin.request).effect =
      .allow := hallowed
  obtain ⟨ids, -, hexplained⟩ := PolicySet.exists_allowExplained hallow
  obtain ⟨id, hid⟩ := hexplained.nonempty
  obtain ⟨rule, hrule, -, -, hrelevant, -⟩ := hexplained.named id hid
  have hresource : rule.resource = request.resource := hrelevant.1
  have hscripts : (agentdBackend policy).scriptedEnforcement = ∅ :=
    scriptedEnforcement_seeded _ _
  have hsupports : (seededResource request.resource).capabilities.supports
      .deviceEnforce = true := rfl
  unfold FakeBackend.enforce
  rw [observe_agentdBackend_of_named ⟨rule, hrule, hresource⟩]
  simp [FakeBackend.enforceObserved, hsupports, hscripts]

end Seeded

/-! ## The daemon -/

/-- The backend did not keep the request from being granted. -/
def Enforceable (outcome : AuthorizationOutcome) : Prop :=
  (∀ result, outcome ≠ .enforcementRefused result) ∧
    ∀ error, outcome ≠ .backendFailed error

section Daemon

variable {handler : AuthorizationHandler} {backend : FakeBackend}
  {actions : List CompositionAction} {host : Composition} {i : ℕ}
  {request : ComputeRequest} {reply : Completion BackendReply}

/-- Nobody but the handler uses the backend. -/
def OwnActions (actions : List CompositionAction) : Prop :=
  ∀ action ∈ actions, action.isForeign = false

instance (actions : List CompositionAction) :
    Decidable (OwnActions actions) :=
  inferInstanceAs (Decidable (∀ action ∈ actions, _ = false))

theorem Composition.Moves.backend_kept {next : Composition}
    {action : CompositionAction}
    (hmoves : Moves handler host next action)
    (hown : action.isForeign = false) :
    next.backend.resources = host.backend.resources ∧
      next.backend.scriptedEnforcement =
        host.backend.scriptedEnforcement := by
  cases hmoves with
  | handled hplain hagent hbackend hobservations =>
      rw [hbackend]
      exact ⟨rfl, rfl⟩
  | observed hcall hissued hnone hagent hbackend hobservations =>
      rw [hbackend]
      exact ⟨rfl, rfl⟩
  | enforced hcall hissued hobserved hagent hbackend hobservations =>
      rw [hbackend]
      exact ⟨rfl, rfl⟩
  | released hagent hbackend hobservations =>
      rcases hbackend with hsame | ⟨resource, hrevoked⟩
      · rw [hsame]
        exact ⟨rfl, rfl⟩
      · rw [hrevoked]
        exact ⟨FakeBackend.revoke_fst_resources _ _,
          FakeBackend.revoke_fst_scriptedEnforcement _ _⟩
  | arranged hforeign hagent hobservations =>
      rw [hown] at hforeign
      contradiction

theorem AuthorizationHandler.ComposedRuns.backend_kept
    (hruns : handler.ComposedRuns backend actions host)
    (hown : OwnActions actions) :
    host.backend.resources = backend.resources ∧
      host.backend.scriptedEnforcement = backend.scriptedEnforcement := by
  refine execute_guarded_invariant
    (fun _ action => action.isForeign = false)
    (fun host : Composition =>
      host.backend.resources = backend.resources ∧
        host.backend.scriptedEnforcement = backend.scriptedEnforcement)
    ?_ ⟨rfl, rfl⟩ (guarded_of_forall fun action hmem _ => hown action hmem)
    hruns
  intro host action next hkept hforeign hstep
  have hsame := (moves_of_step hstep).backend_kept hforeign
  exact ⟨hsame.1.trans hkept.1, hsame.2.trans hkept.2⟩

/-- Left alone, the backend answers an enforcement as it would have at the
start. -/
theorem EnforcementTrace.reply_eq_enforce
    {before between after : List CompositionAction}
    {observing replying : Composition}
    (htrace : EnforcementTrace handler backend actions i request reply before
      between after observing replying)
    (hown : OwnActions actions) :
    reply = .returned (backend.enforce request) := by
  have hbefore : OwnActions before := by
    intro action hmem
    apply hown
    rw [htrace.actions_eq]
    simp [hmem]
  have hbetween : OwnActions (before ++ .observe i :: between) := by
    intro action hmem
    apply hown
    rw [htrace.actions_eq]
    exact List.mem_append_left _ hmem
  have hobserving := htrace.runs_observing.backend_kept hbefore
  have hreplying := htrace.runs_replying.backend_kept hbetween
  rw [htrace.reply_eq, FakeBackend.enforce]
  unfold FakeBackend.observe FakeBackend.enforceObserved
  rw [hobserving.1, hreplying.2]

theorem EnforcementTrace.allowed
    {before between after : List CompositionAction}
    {observing replying : Composition}
    (htrace : EnforcementTrace handler backend actions i request reply before
      between after observing replying) :
    ∃ context, (handler.policy.evaluate context request).effect =
      .allow := by
  obtain ⟨call, lease, hcall, hissued, hrequest⟩ := htrace.holds
  obtain ⟨agentActions, hagent⟩ := htrace.runs_observing.exists_runs
  have hexplained := hagent.explained hcall
  simp only [Explained, hissued] at hexplained
  obtain ⟨asked, now, -, hfor, -⟩ := hexplained
  refine ⟨call.peer.observed, ?_⟩
  rw [hrequest, hfor.origin]
  exact hfor.allowed

theorem AuthorizationHandler.ComposedRuns.enforced_allowed
    (hruns :
      handler.ComposedRuns (agentdBackend handler.policy) actions host)
    (hown : OwnActions actions)
    (hmem : (i, .enforced request reply) ∈ host.agent.transcript) :
    reply = .returned (.ok .allowed) := by
  obtain ⟨before, between, after, observing, replying, htrace⟩ :=
    hruns.exists_enforcementTrace hmem
  obtain ⟨context, hallowed⟩ := htrace.allowed
  rw [htrace.reply_eq_enforce hown,
    enforce_agentdBackend_of_allowed hallowed]

theorem AuthorizationHandler.ComposedRuns.enforceable
    (hruns :
      handler.ComposedRuns (agentdBackend handler.policy) actions host)
    (hown : OwnActions actions) :
    OutcomesFit Enforceable host.agent := by
  obtain ⟨agentActions, hagent⟩ := hruns.exists_runs
  refine hagent.outcomesFit ?_
  intro before earlier i call action conclusion hearlier hkept hcall
    hconcludes
  have hexplained := hearlier.explained hcall
  cases hconcludes with
  | @withdrawn lease outcome hwithdraws =>
      generalize hphase : call.phase = phase at hwithdraws
      cases hwithdraws with
      | lapsed hzero => exact ⟨by simp, by simp⟩
      | @refused result hrefused =>
          simp only [Explained, hphase] at hexplained
          obtain ⟨_, _, _, _, hword⟩ := hexplained
          have hmem : (i, .enforced lease.origin.request
              (.returned (.ok result))) ∈ earlier.transcript := by
            rw [← System.mem_wordOf_iff, hword]
            simp
          have hreply := hruns.enforced_allowed hown (hkept _ hmem)
          simp only [Completion.returned.injEq, Except.ok.injEq] at hreply
          exact (hrefused hreply).elim
      | @failed error =>
          simp only [Explained, hphase] at hexplained
          obtain ⟨_, _, _, _, hword⟩ := hexplained
          have hmem : (i, .enforced lease.origin.request
              (.returned (.error error))) ∈ earlier.transcript := by
            rw [← System.mem_wordOf_iff, hword]
            simp
          have hreply := hruns.enforced_allowed hown (hkept _ hmem)
          simp at hreply
  | @issueFailed now asked observed failure =>
      cases failure <;> exact ⟨by simp [IssueFailure.conclude],
        by simp [IssueFailure.conclude]⟩
  | _ => exact ⟨by simp [handleStatus], by simp [handleStatus]⟩

end Daemon

/-- The policy lists its resources once each, in the order in which the rules
name them; the backend seeded with them enforces whatever the policy allows
and knows no other resource; and in a daemon which uses that backend alone no
request is refused by it. -/
theorem policy_enforceable (policy : PolicySet) :
    policy.resources.Nodup ∧
    policy.resources.Pairwise (OccursEarlier policy.document.rules) ∧
    (∀ resource, resource ∈ policy.resources ↔
      ∃ rule ∈ policy.document.rules, rule.resource = resource) ∧
    (∀ context request,
      (policy.evaluate context request).effect = .allow →
        (agentdBackend policy).enforce request = .ok .allowed) ∧
    (∀ resource,
      (∀ rule ∈ policy.document.rules, rule.resource ≠ resource) →
        (agentdBackend policy).observe resource =
            .error (.unavailable resource) ∧
          ∀ action, (agentdBackend policy).enforce ⟨resource, action⟩ =
            .error (.unavailable resource)) ∧
    ∀ (handler : AuthorizationHandler) actions host,
      handler.policy = policy →
      handler.ComposedRuns (agentdBackend policy) actions host →
      OwnActions actions → OutcomesFit Enforceable host.agent := by
  have hpairwise := pairwise_resourcesOfRules ∅ policy.document.rules
  refine ⟨?_, hpairwise, fun resource => mem_resources_iff, ?_, ?_, ?_⟩
  · refine hpairwise.imp ?_
    intro first second hearlier heq
    rw [heq, OccursEarlier] at hearlier
    exact lt_irrefl _ hearlier
  · intro context request hallowed
    exact enforce_agentdBackend_of_allowed hallowed
  · intro resource hunnamed
    have hobserve := observe_agentdBackend_of_unnamed hunnamed
    refine ⟨hobserve, ?_⟩
    intro action
    rw [FakeBackend.enforce, hobserve, FakeBackend.enforceObserved]
  · rintro handler actions host rfl hruns hown
    exact hruns.enforceable hown

def seededActions : List CompositionAction :=
  [.handle (.start (workerPeer .unsupported, sampleLeaseRequest)),
    .handle (.act 0 (.issue ⟨0⟩)),
    .observe 0,
    .enforce 0,
    .handle (.act 0 (.readClock ⟨1⟩)),
    .handle (.act 0 .settle),
    .handle (.act 0 .record)]

def seededState : Composition :=
  Option.get (execute sampleHandler.compositionStep
    (sampleHandler.composed (agentdBackend samplePolicy)) seededActions)
    (by decide)

theorem seededState_enforceable :
    samplePolicy.resources = [sampleResource] ∧
      (agentdBackend samplePolicy).enforce sampleRequest = .ok .allowed ∧
      OutcomesFit Enforceable seededState.agent := by
  obtain ⟨-, -, -, henforce, -, hdaemon⟩ := policy_enforceable samplePolicy
  refine ⟨by decide, ?_, ?_⟩
  · exact henforce (workerContext .unsupported) sampleRequest (by decide)
  · exact hdaemon sampleHandler seededActions seededState rfl
      (Option.some_get _).symm (by decide)

end Eltanin.Agent
