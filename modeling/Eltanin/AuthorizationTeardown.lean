import Eltanin.AuthorizationRelease

/-!
# What a release may tear down

A release holds the lock over the backend's teardown and skips it while another
stored lease needs the resource.  Enforcement runs without the lock, though,
and a lease which is enforced but not yet inserted is in no store.  As long as
no release of the last stored lease on a resource falls into that gap of a
grant on the same resource, every stored lease stays enforced; otherwise the
enforcement of the new lease is torn down under it.
-/

namespace Eltanin.Agent

open Eltanin.Core Backend Protocol EventLog InterleavedSessions
  AuthorizationHandler PartialExecution

def Happening.TearsDown (resource : ResourceIdentity) : Happening → Prop
  | .backendRevoked torn _ => torn = resource
  | _ => False

instance (resource : ResourceIdentity) :
    DecidablePred (Happening.TearsDown resource) := fun event =>
  match event with
  | .backendRevoked torn _ => inferInstanceAs (Decidable (torn = resource))
  | .pruned _ | .issued _ | .enforced _ _ | .timed _ | .inserted _
  | .compensated _ | .released _ | .recorded _ =>
      inferInstanceAs (Decidable False)

/-- No teardown of the resource follows the enforcement on which call `i` was
granted the lease. -/
def Intact (agent : AgentState) (i : ℕ) (lease : ComputeLease) : Prop :=
  NeverAfter
    (fun event => event =
      (i, .enforced lease.origin.request (.returned (.ok .allowed))))
    (fun event => event.2.TearsDown lease.origin.request.resource)
    agent.transcript

instance (agent : AgentState) (i : ℕ) (lease : ComputeLease) :
    Decidable (Intact agent i lease) :=
  inferInstanceAs (Decidable (List.Pairwise _ _))

def Unexpired (agent : AgentState) (lease : ComputeLease) : Prop :=
  ∀ now ∈ (readings agent).getLast?, now < lease.expiresAt

instance (agent : AgentState) (lease : ComputeLease) :
    Decidable (Unexpired agent lease) :=
  inferInstanceAs
    (Decidable (∀ now ∈ (readings agent).getLast?, now < lease.expiresAt))

/-- A stored lease which is unexpired and not released is still enforced. -/
def GrantsIntact (agent : AgentState) : Prop :=
  ∀ i lease, agent.shared.get lease.id = some lease →
    Unexpired agent lease → Unreleased agent lease.id →
    (i, .inserted lease) ∈ agent.transcript → Intact agent i lease

/-- The lease which a call has had enforced and is going to insert. -/
def Phase.enforcedLease? : Phase → Option ComputeLease
  | .enforced lease (.ok .allowed) => some lease
  | .timed lease remaining => if remaining.IsZero then none else some lease
  | _ => none

/-- The call would release the last stored lease on the resource. -/
def ReleasesLast (state : LeaseState) (call : Call) (now : MonotonicTime)
    (resource : ResourceIdentity) : Prop :=
  ∃ request observed lease, call.request = .releaseLease request ∧
    call.peer.authorizable = some observed ∧
    Releasable state request observed now lease ∧
    (state.prune now).anyOtherLiveLeaseForSameResource request.leaseId =
      false ∧
    lease.origin.request.resource = resource

/-- No lease on the resource is between its enforcement and its insertion
when the last stored one is released. -/
def ReleasesApart (agent : AgentState) : AgentAction → Prop
  | .act j (.release now _) =>
      ∀ call resource, agent.sessions[j]? = some call →
        ReleasesLast agent.shared call now resource →
          ∀ other ∈ agent.sessions, ∀ lease ∈ other.phase.enforcedLease?,
            lease.origin.request.resource ≠ resource
  | _ => True

/-- Call `i` relies on the enforcement of the lease: it is going to insert it,
or has inserted it and it is still stored. -/
def Relies (agent : AgentState) (i : ℕ) (lease : ComputeLease) : Prop :=
  (∃ call, agent.sessions[i]? = some call ∧
    call.phase.enforcedLease? = some lease) ∨
  agent.shared.get lease.id = some lease ∧
    (i, .inserted lease) ∈ agent.transcript

section Teardown

variable {handler : AuthorizationHandler} {actions : List AgentAction}
  {agent : AgentState} {i j : ℕ} {call : Call} {action : CallAction}
  {next : LeaseState} {phase : Phase} {new : List Happening}
  {lease : ComputeLease}

/-! ## Which call relies on which enforcement -/

theorem Phase.enforcedLease?_ofCompletion
    (completion : Completion Conclusion) :
    (Phase.ofCompletion completion).enforcedLease? = none := by
  cases completion <;> rfl

theorem CallTransition.timed_of_inserted_mem
    (htransition :
      CallTransition handler agent.shared call action next phase new)
    (hinserted : .inserted lease ∈ new) :
    call.phase.enforcedLease? = some lease := by
  cases htransition with
  | granted htimed hpositive =>
      have hsame : lease = _ :=
        Happening.inserted.inj (List.mem_singleton.mp hinserted)
      subst hsame
      simp [htimed, Phase.enforcedLease?, hpositive]
  | @released now backend request =>
      cases hreply : teardownReply (agent.shared.prune now) request.leaseId
        backend <;> simp [hreply] at hinserted
  | _ => simp at hinserted

theorem AuthorizationHandler.Runs.not_enforced_of_issued
    (hruns : handler.Runs actions agent)
    (hcall : agent.sessions[i]? = some call)
    (hissued : call.phase = .issued lease) (request : ComputeRequest)
    (reply : Completion BackendReply) :
    (i, .enforced request reply) ∉ agent.transcript := by
  have hexplained := hruns.explained hcall
  simp only [Explained, hissued] at hexplained
  rcases hexplained with ⟨_, _, _, _, hword⟩
  rw [← System.mem_wordOf_iff, hword]
  simp [issueEvents]

theorem AuthorizationHandler.Runs.issued_of_enforcedLease?
    (hruns : handler.Runs actions agent)
    (hcall : agent.sessions[i]? = some call)
    (henforced : call.phase.enforcedLease? = some lease) :
    (i, .issued lease) ∈ agent.transcript := by
  have hexplained := hruns.explained hcall
  rw [← System.mem_wordOf_iff]
  unfold Phase.enforcedLease? at henforced
  split at henforced
  next enforced hphase =>
    simp only [Explained, hphase] at hexplained
    rcases hexplained with ⟨_, _, _, _, hword⟩
    have hsame := Option.some.inj henforced
    simp [hword, issueEvents, hsame]
  next timed remaining hphase =>
    simp only [Explained, hphase] at hexplained
    rcases hexplained with ⟨_, _, _, _, _, _, hword⟩
    split at henforced
    · contradiction
    · have hsame := Option.some.inj henforced
      simp [hword, issueEvents, hsame]
  · contradiction

theorem AuthorizationHandler.Runs.issued_of_inserted
    (hruns : handler.Runs actions agent)
    (hinserted : (i, .inserted lease) ∈ agent.transcript) :
    (i, .issued lease) ∈ agent.transcript := by
  obtain ⟨call, hcall⟩ := hruns.exists_call_of_mem hinserted
  obtain ⟨_, _, _, _, _, _, _, _, hword⟩ :=
    (hruns.explained hcall).grants_of_inserted
      (System.mem_wordOf_iff.mpr hinserted)
  rw [← System.mem_wordOf_iff, hword]
  simp [grantEvents]

theorem AuthorizationHandler.Runs.eq_of_inserted_of_enforcedLease?
    (hruns : handler.Runs actions agent)
    (hcall : agent.sessions[j]? = some call)
    (henforced : call.phase.enforcedLease? = some lease)
    (hinserted : (i, .inserted lease) ∈ agent.transcript) : i = j := by
  have hdistinct := hruns.ledgerInvariant.issuer.issued_distinct
  have heq := hdistinct.eq_of_key_eq (hruns.issued_of_inserted hinserted)
    (hruns.issued_of_enforcedLease? hcall henforced) rfl rfl
  exact congrArg Prod.fst heq

/-! ## What one action does to the enforcement relied on -/

theorem AuthorizationHandler.Runs.relies_of_advance
    (hruns : handler.Runs actions agent)
    (hcall : agent.sessions[j]? = some call)
    (htransition :
      CallTransition handler agent.shared call action next phase new)
    (hrelies :
      Relies (agent.advance j next (call.advanceTo phase) new) i lease) :
    Relies agent i lease ∨
      ∀ request reply, (i, .enforced request reply) ∉ agent.transcript := by
  have hpending : ∀ {k}, k = j →
      call.phase.enforcedLease? = some lease → Relies agent k lease :=
    fun heq henforced => .inl ⟨call, heq ▸ hcall, henforced⟩
  rcases hrelies with ⟨found, hfound, henforced⟩ | ⟨hstored, hinserted⟩
  · rcases (System.getElem?_advance_eq_some_iff hcall).mp hfound with
      ⟨hi, hafter⟩ | ⟨_, hold⟩
    · subst hi
      subst hafter
      cases htransition with
      | enforced hissued =>
          right
          exact hruns.not_enforced_of_issued hcall hissued
      | timed hallowed =>
          left
          apply hpending rfl
          simp only [Phase.enforcedLease?, Call.advanceTo] at henforced
          split at henforced
          · contradiction
          · rw [hallowed]
            exact henforced
      | released =>
          simp only [Call.advanceTo,
            Phase.enforcedLease?_ofCompletion] at henforced
          contradiction
      | _ => simp [Phase.enforcedLease?, Call.advanceTo] at henforced
    · exact .inl (.inl ⟨found, hold, henforced⟩)
  · left
    have hgot := (htransition.get_cases hstored).imp_right
      htransition.timed_of_inserted_mem
    rcases System.mem_transcript_advance_iff.mp hinserted with
      hbefore | ⟨hi, hnew⟩
    · rcases hgot with hold | henforced
      · exact .inr ⟨hold, hbefore⟩
      · exact hpending
          (hruns.eq_of_inserted_of_enforcedLease? hcall henforced hbefore)
          henforced
    · exact hpending hi (htransition.timed_of_inserted_mem hnew)

theorem Happening.tearsDown_iff {event : Happening}
    {resource : ResourceIdentity} :
    event.TearsDown resource ↔
      ∃ reply, event = .backendRevoked resource reply := by
  constructor
  · intro htears
    cases event with
    | backendRevoked torn reply =>
        have hsame : torn = resource := htears
        exact ⟨reply, by rw [hsame]⟩
    | _ => exact htears.elim
  · intro hrevoked
    rcases hrevoked with ⟨reply, heq⟩
    rw [heq]
    exact rfl

/-- Only the release of the last stored lease on a resource tears it down, and
no stored lease needs the resource afterwards. -/
theorem CallTransition.releasesLast_of_tearsDown {event : Happening}
    {resource : ResourceIdentity}
    (htransition :
      CallTransition handler agent.shared call action next phase new)
    (hevent : event ∈ new) (htears : event.TearsDown resource) :
    phase.enforcedLease? = none ∧
      (∀ id lease, next.get id = some lease →
        lease.origin.request.resource ≠ resource) ∧
      ∃ now backend, action = .release now backend ∧
        ReleasesLast agent.shared call now resource := by
  obtain ⟨reply, heq⟩ := Happening.tearsDown_iff.mp htears
  subst heq
  cases htransition with
  | @released now backend request observed lease harrived hrequest hpeer
      hreleasable =>
      unfold teardownReply at hevent
      split at hevent
      · simp at hevent
      next hnone =>
        have hlast : (agent.shared.prune now).anyOtherLiveLeaseForSameResource
            request.leaseId = false := Bool.eq_false_iff.mpr hnone
        have hsame : resource = lease.origin.request.resource := by
          simp only [Option.map_some, Option.toList_some, List.mem_cons,
            List.not_mem_nil, Happening.backendRevoked.injEq, reduceCtorEq,
            false_or, or_false] at hevent
          exact hevent.1
        subst hsame
        refine ⟨Phase.enforcedLease?_ofCompletion _, ?_, now, backend, rfl,
          request, observed, lease, hrequest, hpeer, hreleasable, hlast, rfl⟩
        intro id other hstored
        obtain ⟨hne, hpruned⟩ := LeaseState.get_remove_eq_some_iff.mp hstored
        exact (LeaseState.anyOtherLiveLeaseForSameResource_eq_false_iff
          hreleasable.1).mp hlast id other hpruned hne
  | _ => simp at hevent

/-- An action which keeps apart from pending grants tears nothing down that
any call relies on afterwards. -/
theorem CallTransition.not_tearsDown
    (htransition :
      CallTransition handler agent.shared call action next phase new)
    (hcall : agent.sessions[j]? = some call)
    (hapart : ReleasesApart agent (.act j action))
    (hrelies :
      Relies (agent.advance j next (call.advanceTo phase) new) i lease) :
    ∀ event ∈ new, ¬event.TearsDown lease.origin.request.resource := by
  intro event hevent htears
  obtain ⟨hnone, hfree, now, backend, haction, hlast⟩ :=
    htransition.releasesLast_of_tearsDown hevent htears
  subst haction
  rcases hrelies with ⟨found, hfound, henforced⟩ | ⟨hstored, _⟩
  · rcases (System.getElem?_advance_eq_some_iff hcall).mp hfound with
      ⟨_, hafter⟩ | ⟨_, hold⟩
    · have hphase : phase.enforcedLease? = some lease := by
        rw [hafter] at henforced
        exact henforced
      rw [hnone] at hphase
      contradiction
    · exact hapart call _ hcall hlast found (List.mem_of_getElem? hold) lease
        henforced rfl
  · exact hfree lease.id lease hstored rfl

theorem Intact.advance {after : Call} (hintact : Intact agent i lease)
    (hnot : ∀ event ∈ new,
      ¬event.TearsDown lease.origin.request.resource) :
    Intact (agent.advance j next after new) i lease := by
  have hnew : ∀ event ∈ new.map (j, ·),
      ¬event.2.TearsDown lease.origin.request.resource := by
    intro event hevent
    obtain ⟨happening, hmem, heq⟩ := List.mem_map.mp hevent
    rw [← heq]
    exact hnot happening hmem
  unfold Intact System.advance
  rw [neverAfter_append_iff]
  exact ⟨hintact, neverAfter_of_forall_not hnew, fun _ _ _ => hnew⟩

theorem AuthorizationHandler.Runs.intact_advance
    (hruns : handler.Runs actions agent)
    (hintact : ∀ i lease, Relies agent i lease → Intact agent i lease)
    (hcall : agent.sessions[j]? = some call)
    (htransition :
      CallTransition handler agent.shared call action next phase new)
    (hapart : ReleasesApart agent (.act j action))
    (hrelies :
      Relies (agent.advance j next (call.advanceTo phase) new) i lease) :
    Intact (agent.advance j next (call.advanceTo phase) new) i lease := by
  have hnot := htransition.not_tearsDown hcall hapart hrelies
  apply Intact.advance ?_ hnot
  rcases hruns.relies_of_advance hcall htransition hrelies with
    hbefore | hnone
  · exact hintact i lease hbefore
  · apply List.pairwise_of_forall_mem_list
    intro earlier hearlier later _ hfirst
    rw [hfirst] at hearlier
    exact (hnone _ _ hearlier).elim

/-- As long as releases keep apart from pending grants, every stored lease
stays enforced, in whatever order the calls interleave. -/
theorem AuthorizationHandler.Runs.grants_intact
    (hruns : handler.Runs actions agent)
    (hapart : Guarded ReleasesApart handler.step handler.initial actions) :
    GrantsIntact agent := by
  have hintact : ∀ i lease, Relies agent i lease → Intact agent i lease := by
    refine Program.guarded_run_invariant ReleasesApart
      (fun agent : AgentState =>
        ∀ i lease, Relies agent i lease → Intact agent i lease)
      ?_ ?_ ?_ hapart hruns
    · intro agent opening hagent i lease hrelies
      apply hagent i lease
      rcases hrelies with ⟨found, hfound, henforced⟩ | hstored
      · rcases System.getElem?_enroll_eq_some_iff.mp hfound with
          ⟨_, hstart⟩ | hold
        · rw [hstart] at henforced
          contradiction
        · exact .inl ⟨found, hold, henforced⟩
      · exact .inr hstored
    · intro agent j action call next after new hreachable hagent hguard hcall
        hact i lease hrelies
      rcases hreachable with ⟨before, hbefore⟩
      have hruns : handler.Runs before agent := hbefore
      obtain ⟨phase, hafter, htransition⟩ := reaches_of_act hact
      subst hafter
      exact hruns.intact_advance hagent hcall htransition hguard hrelies
    · intro i lease _
      exact List.Pairwise.nil
  intro i lease hstored _ _ hinserted
  exact hintact i lease (.inr ⟨hstored, hinserted⟩)

end Teardown

/-- The worker releases its lease and is granted another one afterwards. -/
def apartActions : List AgentAction :=
  askActions workerHash ++
    [.act 1 (.release ⟨2⟩ (.returned (.ok .allowed))),
      .start (workerPeer workerHash, sampleLeaseRequest),
      .act 2 (.issue ⟨3⟩),
      .act 2 (.enforce (.returned (.ok .allowed))),
      .act 2 (.readClock ⟨4⟩),
      .act 2 .settle]

def apartState : AgentState :=
  sampleHandler.finalState apartActions (by decide)

theorem apartState_grants_intact : GrantsIntact apartState := by
  have hapart : Guarded ReleasesApart sampleHandler.step
      sampleHandler.initial apartActions := by
    refine Guarded.append ?_ ?_
    · apply guarded_of_forall
      simp [askActions, grantActions, ReleasesApart]
    · intro middle hmiddle
      have hasked : PartialExecution.execute sampleHandler.step
          sampleHandler.initial (askActions workerHash) =
            some recognizedState := runs_finalState _
      rw [hasked, Option.some.injEq] at hmiddle
      subst hmiddle
      constructor
      · -- nobody else has a call in flight
        intro call resource _ _ other hother lease hlease
        have hnone : ∀ other ∈ recognizedState.sessions,
            other.phase.enforcedLease? = none := by decide
        rw [hnone other hother] at hlease
        contradiction
      · intro next _
        apply guarded_of_forall
        simp [ReleasesApart]
  exact (runs_finalState _).grants_intact hapart

/-- A second client is granted a lease on the resource; between its
enforcement and its insertion the worker releases the only stored one. -/
def raceActions : List AgentAction :=
  grantActions workerHash ++
    [.start (workerPeer workerHash, sampleLeaseRequest),
      .act 1 (.issue ⟨2⟩),
      .act 1 (.enforce (.returned (.ok .allowed))),
      .start (workerPeer workerHash, .releaseLease ⟨sampleId⟩),
      .act 2 (.release ⟨3⟩ (.returned (.ok .allowed))),
      .act 1 (.readClock ⟨4⟩),
      .act 1 .settle,
      .act 1 .record]

def twoSlotHandler : AuthorizationHandler :=
  { sampleHandler with
    config := sampleHandler.config.withMaxOutstandingLeases 2 }

def raceState : AgentState :=
  twoSlotHandler.finalState raceActions (by decide)

def racedLease : ComputeLease :=
  { workerLease workerHash with
    id := ⟨⟨"agent-1"⟩, 1⟩
    issuedAt := ⟨2⟩
    expiresAt := ⟨62⟩ }

theorem release_can_tear_down_new_grant :
    ¬∀ (handler : AuthorizationHandler) (actions : List AgentAction)
        (agent : AgentState),
      handler.Runs actions agent → GrantsIntact agent := by
  intro hall
  have hgrants := hall twoSlotHandler raceActions raceState
    (runs_finalState _)
  have hstored : raceState.shared.get racedLease.id = some racedLease := by
    decide
  have hintact := hgrants 1 racedLease hstored (by decide) (by decide)
    (by decide)
  revert hintact
  decide

end Eltanin.Agent
