import Eltanin.AuthorizationGrant
import Eltanin.CallOutcomes

/-!
# The lease store and the issuer agree

The store and the issuer are changed separately, and agree in every state in
which the lock is free: a stored lease is one its issuer would still validate,
as far as the issuer alone can tell.  What is left for `validate` to find out
inside a release is therefore about the workload only, and most outcomes which
the types would allow are never recorded.
-/

namespace Eltanin.Agent

open Eltanin.Core Backend Protocol InterleavedSessions AuthorizationHandler

structure StoredLease (handler : AuthorizationHandler) (issuer : LeaseIssuer)
    (id : LeaseId) (lease : ComputeLease) : Prop where
  keyed : lease.id = id
  instanceId : lease.id.issuer = handler.instanceId
  handedOut : lease.id.sequence.toNat < issuer.nextSequence.toNat
  live : lease.id.sequence ∉ issuer.revoked
  lifetime : lease.expiresAt.nanos.toNat =
    lease.issuedAt.nanos.toNat + handler.config.leaseTtl.asNanos
  allowed : (handler.policy.evaluate lease.origin.context
    lease.origin.request).effect = .allow

def ConcernsWorkload : LeaseValidity → Prop
  | .valid _ => True
  | .workloadMismatch => True
  | .workloadIndeterminate => True
  | .executableMismatch => True
  | _ => False

/-- The outcomes a handler can record, among those the types allow. -/
def Recordable : AuthorizationOutcome → Prop
  | .released revocation _ => revocation = .revoked
  | .releaseRefused validity =>
      ConcernsWorkload validity ∧ validity.isValid = false
  | .leaseIssueFailed error => error = .expiryOverflow
  | _ => True

variable {handler : AuthorizationHandler} {actions : List AgentAction}
  {agent : AgentState}

/-! ## Stored leases -/

theorem AuthorizationHandler.Runs.storedLease {id : LeaseId}
    {lease : ComputeLease} (hruns : handler.Runs actions agent)
    (hstored : agent.shared.get id = some lease) :
    StoredLease handler agent.shared.issuer id lease := by
  have hledger := hruns.ledgerInvariant
  have hkeyed : lease.id = id := hledger.holdings.id_eq hstored
  have hlive := hledger.holdings.live (hledger.holdings.live_of_stored hstored)
  have houtstanding : Outstanding agent.transcript lease :=
    (hledger.holdings.stored_iff.mp hstored).2
  rcases houtstanding.exists_mem with ⟨⟨i, event⟩, hmem, hevent⟩
  simp only at hevent
  subst hevent
  rcases hruns.exists_call_of_mem hmem with ⟨call, hcall⟩
  rcases (hruns.explained hcall).grants_of_inserted
      (System.mem_wordOf_iff.mpr hmem) with
    ⟨request, now, later, view, rest, -, hgrants, -⟩
  have hissued := hgrants.issued
  exact
    { keyed := hkeyed
      instanceId := hlive.1.1.trans hledger.issuer.instanceId
      handedOut := hlive.1.2
      live := hlive.2
      lifetime := by rw [hissued.issuedAt, hissued.expiresAt]
      allowed := by
        rw [hissued.origin]
        exact hissued.allowed }

/-- Pruned at the same reading, a stored lease gives `validate` nothing to
object to but the workload. -/
theorem AuthorizationHandler.Runs.concernsWorkload {id : LeaseId}
    {observed : ExecutionContext} {now : MonotonicTime}
    {stored : ComputeLease} (hruns : handler.Runs actions agent)
    (hstored : (agent.shared.prune now).get id = some stored) :
    ConcernsWorkload ((agent.shared.prune now).issuer.validate stored
      ⟨observed, stored.origin.request⟩ now) := by
  rcases LeaseState.get_prune_eq_some_iff.mp hstored with
    ⟨hbefore, hunexpired⟩
  have hlease := hruns.storedLease hbefore
  have hinstance : stored.id.issuer = agent.shared.issuer.instanceId :=
    hlease.instanceId.trans hruns.ledgerInvariant.issuer.instanceId.symm
  have hnotExpired : ¬now ≥ stored.expiresAt :=
    MonotonicTime.not_le_iff_lt.mpr hunexpired
  simp only [LeaseState.prune, LeaseIssuer.validate, hinstance, hlease.live,
    hnotExpired, ne_eq, not_true_eq_false, if_false]
  cases stored.origin.context.workload.compareProcess observed.workload with
  | different => trivial
  | indeterminate => trivial
  | same =>
      cases stored.origin.context.workload.compareExecutable
        observed.workload <;> trivial

theorem AuthorizationHandler.Runs.revoke_stored {id : LeaseId}
    {now : MonotonicTime} {stored : ComputeLease}
    (hruns : handler.Runs actions agent)
    (hstored : (agent.shared.prune now).get id = some stored) :
    ((agent.shared.prune now).revoke id).2 = .revoked := by
  have hbefore := (LeaseState.get_prune_eq_some_iff.mp hstored).1
  have hlease := hruns.storedLease hbefore
  have hinstance := hruns.ledgerInvariant.issuer.instanceId
  rcases hlease with ⟨rfl, hissuer, hissued, hlive, -, -⟩
  have hrevoked := LeaseIssuer.revoke_of_live
    (hissuer.trans hinstance.symm) hissued hlive
  simp only [LeaseState.revoke, LeaseState.prune]
  exact congrArg Prod.snd hrevoked

/-! ## Recorded outcomes -/

theorem Concludes.recordable {call : Call} {action : CallAction}
    {conclusion : Conclusion} (hruns : handler.Runs actions agent)
    (hconcludes :
      Concludes handler agent.shared call action conclusion) :
    Recordable conclusion.outcome := by
  cases hconcludes with
  | issueFailed hrequest hpeer hfailed =>
      rcases failure_of_issueReservingCapacity hruns.maxTtl_eq hfailed with
        ⟨-, rfl⟩ | ⟨-, -, rfl⟩ | ⟨-, -, rfl⟩
      · trivial
      · trivial
      · rfl
  | withdrawn hwithdraws =>
      generalize call.phase = phase at hwithdraws
      cases hwithdraws with
      | lapsed hzero => rfl
      | refused hrefused => trivial
      | failed => trivial
  | releaseRefused hrequest hstored hinvalid =>
      exact ⟨hruns.concernsWorkload hstored, hinvalid⟩
  | released hrequest hstored => exact hruns.revoke_stored hstored
  | _ => trivial

theorem AuthorizationHandler.Runs.recordable
    (hruns : handler.Runs actions agent) :
    OutcomesFit Recordable agent := by
  refine hruns.outcomesFit ?_
  intro before earlier i call action conclusion hearlier _ _ hconcludes
  exact hconcludes.recordable hearlier

/-- Whenever the lock is free the store and the issuer agree, a release finds
nothing to object to but the workload, and what is recorded says so. -/
theorem AuthorizationHandler.Runs.store_and_issuer_agree
    (hruns : handler.Runs actions agent) :
    (∀ id lease, agent.shared.get id = some lease →
      StoredLease handler agent.shared.issuer id lease) ∧
    (∀ sequence ∈ agent.shared.issuer.revoked,
      sequence.toNat < agent.shared.issuer.nextSequence.toNat) ∧
    (∀ id observed now stored,
      (agent.shared.prune now).get id = some stored →
        ConcernsWorkload ((agent.shared.prune now).issuer.validate stored
          ⟨observed, stored.origin.request⟩ now)) ∧
    ∀ i event, (i, .recorded event) ∈ agent.transcript →
      Recordable event.outcome := by
  refine ⟨?_, ?_, ?_, ?_⟩
  · intro id lease hstored
    exact hruns.storedLease hstored
  · exact hruns.ledgerInvariant.issuer.revoked_lt
  · intro id observed now stored hstored
    exact hruns.concernsWorkload hstored
  · intro i event hrecorded
    exact hruns.recordable.recorded hrecorded

theorem grantedState_store_and_issuer_agree :
    (grantedState.shared.get sampleView.leaseId).isSome = true ∧
      ∀ lease, grantedState.shared.get sampleView.leaseId = some lease →
        StoredLease sampleHandler grantedState.shared.issuer
          sampleView.leaseId lease :=
  ⟨by decide, runs_grantedState.store_and_issuer_agree.1 _⟩

end Eltanin.Agent
