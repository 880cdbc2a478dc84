import Eltanin.AuthorizationRelease
import Eltanin.CallOutcomes

/-!
# One teardown for each last release

The backend is asked to revoke a resource inside the critical section which
releases a lease on it, and only if no other unexpired lease on it is stored
there.  So the calls of `backend.revoke` can be counted by looking at the
releases: each last release makes one, with its own resource, and nothing else
makes any.  A revocation which unwinds has been made all the same, although
its release is then answered with an internal error.
-/

namespace Eltanin.Agent

open Eltanin.Core Backend Protocol InterleavedSessions PartialExecution
  AuthorizationHandler

/-- The resource which a call of `backend.revoke` is about. -/
def Happening.revokes? : Happening → Option ResourceIdentity
  | .backendRevoked resource _ => some resource
  | _ => none

def revocations (events : List Happening) : List ResourceIdentity :=
  events.filterMap Happening.revokes?

/-- In this store the lease is on the resource, and nobody else has an
unexpired lease on it. -/
def StoredLast (state : LeaseState) (id : LeaseId) (now : MonotonicTime)
    (resource : ResourceIdentity) : Prop :=
  (∃ lease, state.get id = some lease ∧
    lease.origin.request.resource = resource) ∧
  ∀ otherId other, state.get otherId = some other →
    now < other.expiresAt → otherId ≠ id →
      other.origin.request.resource ≠ resource

/-- Call `i` asked for the release of the last lease on the resource, in a
critical section which got this reply from the backend, if it asked. -/
def AsksLastRelease (handler : AuthorizationHandler)
    (actions : List AgentAction) (i : ℕ) (request : ReleaseRequest)
    (resource : ResourceIdentity) (reply : Completion BackendReply) : Prop :=
  ∃ before now after state,
    actions = before ++ .act i (.release now reply) :: after ∧
      handler.Runs before state ∧
      StoredLast state.shared request.leaseId now resource

/-- Call `i` is a last release of the resource which was answered so. -/
def AnsweredLast (handler : AuthorizationHandler)
    (actions : List AgentAction) (agent : AgentState)
    (resource : ResourceIdentity) (i : ℕ) : Prop :=
  ∃ call request reply, agent.sessions[i]? = some call ∧
    call.request = .releaseLease request ∧
    call.response? = some (.leaseReleased .released) ∧
    AsksLastRelease handler actions i request resource reply

/-- Call `i` is a last release of the resource: answered so, or unwound by the
revocation it made. -/
def ReleasedLast (handler : AuthorizationHandler)
    (actions : List AgentAction) (agent : AgentState)
    (resource : ResourceIdentity) (i : ℕ) : Prop :=
  ∃ call request reply, agent.sessions[i]? = some call ∧
    call.request = .releaseLease request ∧
    (call.response? = some (.leaseReleased .released) ∨
      reply = .panicked ∧ call.phase = .unwound none) ∧
    AsksLastRelease handler actions i request resource reply

section Accounting

variable {handler : AuthorizationHandler} {actions : List AgentAction}
  {agent final : AgentState} {i : ℕ} {call : Call}
  {resource : ResourceIdentity}

/-! ## What is decided about a call stays so -/

structure Call.Continues (call later : Call) : Prop where
  request : later.request = call.request
  response : ∀ response, call.response? = some response →
    later.response? = some response
  unwound : ∀ held, call.phase = .unwound held → later.phase = .unwound held

theorem Call.Continues.refl (call : Call) : call.Continues call :=
  ⟨rfl, fun _ hresponse => hresponse, fun _ hphase => hphase⟩

theorem Call.Continues.trans {first second third : Call}
    (hfirst : first.Continues second) (hsecond : second.Continues third) :
    first.Continues third where
  request := hsecond.request.trans hfirst.request
  response := fun response hresponse =>
    hsecond.response response (hfirst.response response hresponse)
  unwound := fun held hphase =>
    hsecond.unwound held (hfirst.unwound held hphase)

theorem CallTransition.ne_unwound {state next : LeaseState}
    {action : CallAction} {phase : Phase} {new : List Happening}
    (htransition : CallTransition handler state call action next phase new)
    (held : Option ComputeLease) : call.phase ≠ .unwound held := by
  intro hunwound
  cases htransition with
  | withdrawn hwithdraws =>
      rw [hunwound] at hwithdraws
      cases hwithdraws
  | _ => simp_all

theorem CallTransition.continues {state next : LeaseState}
    {action : CallAction} {phase : Phase} {new : List Happening}
    (htransition : CallTransition handler state call action next phase new) :
    call.Continues (call.advanceTo phase) where
  request := rfl
  response := fun _ hresponse => htransition.response?_of_some hresponse
  unwound := fun held hphase => (htransition.ne_unwound held hphase).elim

theorem exists_continues_of_reachable
    (hreachable : Reachable handler.step agent final)
    (hcall : agent.sessions[i]? = some call) :
    ∃ later, final.sessions[i]? = some later ∧ call.Continues later := by
  rcases hreachable with ⟨actions, hrun⟩
  refine Program.run_invariant (fun later : AgentState =>
      ∃ found, later.sessions[i]? = some found ∧ call.Continues found)
    ?_ ?_ ⟨call, hcall, .refl call⟩ hrun
  · intro later opening hlater
    obtain ⟨found, hfound, hcontinues⟩ := hlater
    exact ⟨found, System.getElem?_enroll_eq_some_iff.mpr (.inr hfound),
      hcontinues⟩
  · intro later j action current next after new hlater hcurrent hact
    obtain ⟨found, hfound, hcontinues⟩ := hlater
    by_cases hsame : i = j
    · subst hsame
      obtain ⟨phase, rfl, htransition⟩ := reaches_of_act hact
      rw [hcurrent, Option.some.injEq] at hfound
      subst hfound
      exact ⟨_, (System.getElem?_advance_eq_some_iff hcurrent).mpr
        (.inl ⟨rfl, rfl⟩), hcontinues.trans htransition.continues⟩
    · exact ⟨found, (System.getElem?_advance_eq_some_iff hcurrent).mpr
        (.inr ⟨hsame, hfound⟩), hcontinues⟩

/-! ## A call revokes at most once -/

theorem revocations_append (events new : List Happening) :
    revocations (events ++ new) = revocations events ++ revocations new :=
  List.filterMap_append

/-- Only a release revokes, and it revokes once; it is the first action of
its call. -/
theorem CallTransition.revocations_cases {state next : LeaseState}
    {action : CallAction} {phase : Phase} {new : List Happening}
    (htransition : CallTransition handler state call action next phase new) :
    revocations new = [] ∨
      call.phase = .arrived ∧ ∃ resource, revocations new = [resource] := by
  cases htransition with
  | @released now backend request observed lease harrived =>
      cases hreply : teardownReply (state.prune now) request.leaseId
        backend with
      | none => exact .inl rfl
      | some reply =>
          exact .inr ⟨harrived, lease.origin.request.resource, rfl⟩
  | _ => exact .inl rfl

theorem revocations_cases_of_word {opening : PeerContext × ClientRequest}
    {events : List Happening}
    (hword : handler.program.Word opening call events) :
    revocations events = [] ∨ ∃ resource, revocations events = [resource] := by
  induction hword with
  | start => exact .inl rfl
  | act hword hact ih =>
      obtain ⟨phase, hafter, htransition⟩ := reaches_of_act hact
      rw [revocations_append]
      rcases htransition.revocations_cases with hnone | ⟨harrived, hsome⟩
      · rw [hnone, List.append_nil]
        exact ih
      · have hexplained := explained_of_word hword
        simp only [Explained, harrived] at hexplained
        rw [hexplained]
        exact .inr hsome

theorem AuthorizationHandler.Runs.revocations_cases
    (hruns : handler.Runs actions agent) (i : ℕ) :
    revocations (agent.wordOf i) = [] ∨
      ∃ resource, revocations (agent.wordOf i) = [resource] := by
  have htraced := Program.traced_of_run hruns
  cases hcall : agent.sessions[i]? with
  | some call =>
      obtain ⟨opening, hword⟩ := htraced.2 i call hcall
      exact revocations_cases_of_word hword
  | none =>
      have hwordNil : agent.wordOf i = [] := by
        rw [List.eq_nil_iff_forall_not_mem]
        intro event hmem
        have hlt := htraced.1 _ (System.mem_wordOf_iff.mp hmem)
        have hge := List.getElem?_eq_none_iff.mp hcall
        omega
      rw [hwordNil]
      exact .inl rfl

theorem mem_revocations_wordOf_iff :
    resource ∈ revocations (agent.wordOf i) ↔
      ∃ reply, (i, .backendRevoked resource reply) ∈ agent.transcript := by
  simp only [revocations, List.mem_filterMap, System.mem_wordOf_iff]
  constructor
  · rintro ⟨event, hmem, hrevokes⟩
    cases event with
    | backendRevoked revoked reply =>
        rw [Happening.revokes?, Option.some.injEq] at hrevokes
        exact ⟨reply, hrevokes ▸ hmem⟩
    | _ => simp [Happening.revokes?] at hrevokes
  · rintro ⟨reply, hmem⟩
    exact ⟨_, hmem, rfl⟩

/-! ## Which releases revoke -/

theorem anyOtherLiveLease_eq_false_iff_storedLast {state : LeaseState}
    {request : ReleaseRequest} {observed : ExecutionContext}
    {now : MonotonicTime} {lease : ComputeLease}
    (hreleasable : Releasable state request observed now lease) :
    (state.prune now).anyOtherLiveLeaseForSameResource request.leaseId =
        false ↔
      StoredLast state request.leaseId now lease.origin.request.resource := by
  rw [LeaseState.anyOtherLiveLeaseForSameResource_eq_false_iff hreleasable.1]
  have hstored := (LeaseState.get_prune_eq_some_iff.mp hreleasable.1).1
  constructor
  · intro hlast
    refine ⟨⟨lease, hstored, rfl⟩, ?_⟩
    intro otherId other hother hunexpired hne
    exact hlast otherId other
      (LeaseState.get_prune_eq_some_iff.mpr ⟨hother, hunexpired⟩) hne
  · intro hlast otherId other hother hne
    obtain ⟨hold, hunexpired⟩ := LeaseState.get_prune_eq_some_iff.mp hother
    exact hlast.2 otherId other hold hunexpired hne

/-- How the action ends in which a call revokes. -/
theorem CallTransition.of_backendRevoked {state next : LeaseState}
    {action : CallAction} {phase : Phase} {new : List Happening}
    {reply : Completion BackendReply}
    (htransition : CallTransition handler state call action next phase new)
    (hmem : .backendRevoked resource reply ∈ new) :
    ∃ request now, call.request = .releaseLease request ∧
      action = .release now reply ∧
      StoredLast state request.leaseId now resource ∧
      ((call.advanceTo phase).response? =
          some (.leaseReleased .released) ∨
        reply = .panicked ∧ phase = .unwound none) := by
  cases htransition with
  | @released now backend request observed lease harrived hrequest hpeer
      hreleasable =>
      unfold teardownReply at hmem ⊢
      split at hmem
      · simp at hmem
      next hshared =>
        have hlast := (anyOtherLiveLease_eq_false_iff_storedLast
          hreleasable).mp (Bool.eq_false_iff.mpr hshared)
        simp only [Option.map_some, Option.toList_some, List.mem_cons,
          List.not_mem_nil, Happening.backendRevoked.injEq, reduceCtorEq,
          false_or, or_false] at hmem
        obtain ⟨rfl, rfl⟩ := hmem
        refine ⟨request, now, hrequest, rfl, hlast, ?_⟩
        rw [if_neg hshared]
        cases reply with
        | returned result => exact .inl rfl
        | panicked => exact .inr ⟨rfl, rfl⟩
  | _ => simp at hmem

theorem releasedLast_of_backendRevoked {reply : Completion BackendReply}
    (hruns : handler.Runs actions agent)
    (hmem : (i, .backendRevoked resource reply) ∈ agent.transcript) :
    ReleasedLast handler actions agent resource i := by
  obtain ⟨before, action, after, state, reached, hactions, hbefore, hstep,
      hafter, hnew, hreached⟩ :=
    exists_establishing_step
      (fun agent : AgentState =>
        (i, .backendRevoked resource reply) ∈ agent.transcript)
      (by simp [initial, System.initial]) hmem hruns
  cases action with
  | start opening =>
      cases hstep
      exact (hnew hreached).elim
  | act j action =>
      obtain ⟨call, next, _, new, hcall, hact, rfl⟩ :=
        step_act_eq_some_iff.mp hstep
      rcases System.mem_transcript_advance_iff.mp hreached with
        hold | ⟨rfl, hlatest⟩
      · exact (hnew hold).elim
      obtain ⟨phase, rfl, htransition⟩ := reaches_of_act hact
      obtain ⟨request, now, hrequest, rfl, hlast, hdecided⟩ :=
        htransition.of_backendRevoked hlatest
      obtain ⟨later, hlater, hcontinues⟩ :=
        exists_continues_of_reachable ⟨after, hafter⟩
          ((System.getElem?_advance_eq_some_iff hcall).mpr (.inl ⟨rfl, rfl⟩))
      refine ⟨later, request, reply, hlater,
        hcontinues.request.trans hrequest, ?_, before, now, after, state,
        hactions, hbefore, hlast⟩
      rcases hdecided with hresponse | ⟨hpanicked, hunwound⟩
      · exact .inl (hcontinues.response _ hresponse)
      · exact .inr ⟨hpanicked, hcontinues.unwound none hunwound⟩

/-- A release action whose lease is the last one stored, and whose call is
later found released or unwound, has revoked. -/
theorem CallTransition.backendRevoked_mem {state next : LeaseState}
    {request : ReleaseRequest} {now : MonotonicTime} {phase : Phase}
    {new : List Happening} {reply : Completion BackendReply} {later : Call}
    (htransition : CallTransition handler state call (.release now reply)
      next phase new)
    (hrequest : call.request = .releaseLease request)
    (hlast : StoredLast state request.leaseId now resource)
    (hcontinues : (call.advanceTo phase).Continues later)
    (hdecided : later.response? = some (.leaseReleased .released) ∨
      reply = .panicked ∧ later.phase = .unwound none) :
    .backendRevoked resource reply ∈ new := by
  have hnotRefused :
      (call.advanceTo phase).response? ≠
        some (.leaseReleased .refused) := by
    intro hrefused
    have hkept := hcontinues.response _ hrefused
    rcases hdecided with hreleased | ⟨-, hunwound⟩
    · rw [hreleased] at hkept
      contradiction
    · rw [Call.response?, hunwound] at hkept
      contradiction
  cases htransition with
  | releaseRefusedUnlocked => exact (hnotRefused rfl).elim
  | releaseRefused harrived hsame hpeer hnot hrefused =>
      exact (hnotRefused (congrArg some hrefused)).elim
  | @released _ _ asked observed lease harrived hsame hpeer hreleasable =>
      rw [hsame, ClientRequest.releaseLease.injEq] at hrequest
      subst hrequest
      have hstored := (LeaseState.get_prune_eq_some_iff.mp hreleasable.1).1
      obtain ⟨⟨other, hother, hresource⟩, hnone⟩ := hlast
      rw [hstored, Option.some.injEq] at hother
      subst hother
      subst hresource
      have hshared := (anyOtherLiveLease_eq_false_iff_storedLast
        hreleasable).mpr ⟨⟨lease, hstored, rfl⟩, hnone⟩
      simp [teardownReply, hshared]

theorem mem_revocations_of_releasedLast
    (hruns : handler.Runs actions agent)
    (hreleased : ReleasedLast handler actions agent resource i) :
    resource ∈ revocations (agent.wordOf i) := by
  obtain ⟨later, request, reply, hlater, hrequest, hdecided, before, now,
    after, state, hactions, hbefore, hlast⟩ := hreleased
  have hrun : execute handler.step handler.initial
      (before ++ .act i (.release now reply) :: after) = some agent := by
    rw [← hactions]
    exact hruns
  obtain ⟨middle, hmiddle, hrest⟩ := execute_append_eq_some_iff.mp hrun
  have hstate : middle = state :=
    Option.some.inj (hmiddle.symm.trans hbefore)
  subst hstate
  obtain ⟨reached, hstep, hafter⟩ := execute_cons_eq_some_iff.mp hrest
  obtain ⟨call, next, _, new, hcall, hact, rfl⟩ :=
    step_act_eq_some_iff.mp hstep
  obtain ⟨phase, rfl, htransition⟩ := reaches_of_act hact
  obtain ⟨found, hfound, hcontinues⟩ :=
    exists_continues_of_reachable ⟨after, hafter⟩
      ((System.getElem?_advance_eq_some_iff hcall).mpr (.inl ⟨rfl, rfl⟩))
  have hsame : found = later :=
    Option.some.inj (hfound.symm.trans hlater)
  subst hsame
  have hmem := htransition.backendRevoked_mem
    (hcontinues.request.symm.trans hrequest) hlast hcontinues hdecided
  rw [mem_revocations_wordOf_iff]
  exact ⟨reply, mem_transcript_of_reachable ⟨after, hafter⟩
    (System.mem_transcript_advance_iff.mpr (.inr ⟨rfl, hmem⟩))⟩

theorem revocations_eq_singleton_iff
    (hruns : handler.Runs actions agent) :
    revocations (agent.wordOf i) = [resource] ↔
      ReleasedLast handler actions agent resource i := by
  constructor
  · intro hrevoked
    have hmem : resource ∈ revocations (agent.wordOf i) := by
      rw [hrevoked]
      exact List.mem_singleton_self resource
    obtain ⟨reply, hreply⟩ := mem_revocations_wordOf_iff.mp hmem
    exact releasedLast_of_backendRevoked hruns hreply
  · intro hreleased
    have hmem := mem_revocations_of_releasedLast hruns hreleased
    rcases hruns.revocations_cases i with hnone | ⟨other, hother⟩
    · rw [hnone] at hmem
      contradiction
    · rw [hother, List.mem_singleton] at hmem
      rw [hother, hmem]

theorem count_revocations (events : List Happening)
    (resource : ResourceIdentity) :
    (revocations events).count resource =
      events.countP fun event => event.revokes? == some resource := by
  rw [revocations, List.count_filterMap]

open Classical in
theorem count_revocations_wordOf (hruns : handler.Runs actions agent)
    (i : ℕ) (resource : ResourceIdentity) :
    (revocations (agent.wordOf i)).count resource =
      if ReleasedLast handler actions agent resource i then 1 else 0 := by
  by_cases hreleased : ReleasedLast handler actions agent resource i
  · rw [(revocations_eq_singleton_iff hruns).mpr hreleased, if_pos hreleased,
      List.count_singleton_self]
  · rw [if_neg hreleased]
    rcases hruns.revocations_cases i with hnone | ⟨other, hother⟩
    · rw [hnone, List.count_nil]
    · have hne : resource ∉ revocations (agent.wordOf i) := by
        intro hmem
        obtain ⟨reply, hreply⟩ := mem_revocations_wordOf_iff.mp hmem
        exact hreleased (releasedLast_of_backendRevoked hruns hreply)
      exact List.count_eq_zero_of_not_mem hne

/-- A call which was refused, or which is no release, has not revoked. -/
theorem revocations_eq_nil (hruns : handler.Runs actions agent)
    (hcall : agent.sessions[i]? = some call)
    (hother : call.response? = some (.leaseReleased .refused) ∨
      ∀ request, call.request ≠ .releaseLease request) :
    revocations (agent.wordOf i) = [] := by
  rcases hruns.revocations_cases i with hnone | ⟨resource, hrevoked⟩
  · exact hnone
  · obtain ⟨found, request, reply, hfound, hrequest, hdecided, -⟩ :=
      (revocations_eq_singleton_iff hruns).mp hrevoked
    rw [hcall, Option.some.injEq] at hfound
    subst hfound
    rcases hother with hrefused | hnot
    · rcases hdecided with hreleased | ⟨-, hunwound⟩
      · rw [hreleased] at hrefused
        contradiction
      · rw [Call.response?, hunwound] at hrefused
        contradiction
    · exact (hnot request hrequest).elim

open Classical in
/-- The number of calls of `backend.revoke` for a resource is the number of
last releases of it; each of these makes one call, with its resource, and no
other call of the handler makes any. -/
theorem AuthorizationHandler.Runs.one_revocation_for_each_last_release
    (hruns : handler.Runs actions agent) :
    (∀ resource,
      (revocations (agent.transcript.map Prod.snd)).count resource =
        ((Finset.range agent.sessions.length).filter
          (ReleasedLast handler actions agent resource)).card) ∧
    (∀ i resource, ReleasedLast handler actions agent resource i →
      revocations (agent.wordOf i) = [resource]) ∧
    (∀ i, (∀ resource, ¬ReleasedLast handler actions agent resource i) →
      revocations (agent.wordOf i) = []) ∧
    ∀ (i : ℕ) (call : Call), agent.sessions[i]? = some call →
      (call.response? = some (.leaseReleased .refused) ∨
        ∀ request, call.request ≠ .releaseLease request) →
      revocations (agent.wordOf i) = [] := by
  refine ⟨?_, ?_, ?_, ?_⟩
  · intro resource
    calc (revocations (agent.transcript.map Prod.snd)).count resource
        = agent.transcript.countP fun event =>
            event.2.revokes? == some resource := by
          rw [count_revocations, List.countP_map]
          rfl
      _ = ∑ i ∈ Finset.range agent.sessions.length,
            (agent.wordOf i).countP fun event =>
              event.revokes? == some resource :=
          System.countP_transcript
            (fun event => event.revokes? == some resource)
            (Program.traced_of_run hruns).1
      _ = ∑ i ∈ Finset.range agent.sessions.length,
            if ReleasedLast handler actions agent resource i then 1
            else 0 := by
          apply Finset.sum_congr rfl
          intro i _
          rw [← count_revocations, count_revocations_wordOf hruns]
      _ = ((Finset.range agent.sessions.length).filter
            (ReleasedLast handler actions agent resource)).card :=
          (Finset.card_filter _ _).symm
  · intro i resource hreleased
    exact (revocations_eq_singleton_iff hruns).mpr hreleased
  · intro i hnever
    rcases hruns.revocations_cases i with hnone | ⟨resource, hrevoked⟩
    · exact hnone
    · exact (hnever resource
        ((revocations_eq_singleton_iff hruns).mp hrevoked)).elim
  · intro i call hcall hother
    exact revocations_eq_nil hruns hcall hother

end Accounting

/-! ## A release, with a backend that answers and with one that unwinds -/

def teardownActions (reply : Completion BackendReply) : List AgentAction :=
  askActions workerHash ++ [.act 1 (.release ⟨2⟩ reply)]

def tornDownState : AgentState :=
  sampleHandler.finalState (teardownActions (.returned (.ok .allowed)))
    (by decide)

open Classical in
theorem tornDownState_one_revocation :
    (revocations (tornDownState.transcript.map Prod.snd)).count
        sampleResource =
      ((Finset.range tornDownState.sessions.length).filter
        (ReleasedLast sampleHandler
          (teardownActions (.returned (.ok .allowed))) tornDownState
          sampleResource)).card :=
  (runs_finalState _ : sampleHandler.Runs
    (teardownActions (.returned (.ok .allowed)))
    tornDownState).one_revocation_for_each_last_release.1 sampleResource

def unwoundState : AgentState :=
  sampleHandler.finalState (teardownActions .panicked) (by decide)

open Classical in
/-- The revocation which unwinds is made, and no release is answered. -/
theorem revocation_without_released_answer :
    ¬∀ (handler : AuthorizationHandler) (actions : List AgentAction)
        (agent : AgentState) (resource : ResourceIdentity),
      handler.Runs actions agent →
        (revocations (agent.transcript.map Prod.snd)).count resource =
          ((Finset.range agent.sessions.length).filter
            (AnsweredLast handler actions agent resource)).card := by
  intro hall
  have hcount := hall sampleHandler (teardownActions .panicked) unwoundState
    sampleResource (runs_finalState _)
  have hrevoked : (revocations (unwoundState.transcript.map
      Prod.snd)).count sampleResource = 1 := by decide
  have hnobody : ∀ call ∈ unwoundState.sessions,
      call.response? ≠ some (.leaseReleased .released) := by decide
  have hnone : (Finset.range unwoundState.sessions.length).filter
      (AnsweredLast sampleHandler (teardownActions .panicked) unwoundState
        sampleResource) = ∅ := by
    rw [Finset.filter_eq_empty_iff]
    rintro i - ⟨call, request, reply, hcall, -, hreleased, -⟩
    exact hnobody call (List.mem_of_getElem? hcall) hreleased
  rw [hrevoked, hnone] at hcount
  contradiction

end Eltanin.Agent
