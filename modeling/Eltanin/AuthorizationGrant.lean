import Eltanin.AuthorizationCapacity
import Eltanin.CallOutcomes

/-!
# Every grant is fully authorized

What a granted client may conclude about its own call: the peer was consistent,
the policy allowed exactly this request, the backend enforced exactly it in
between, and the lease behind the answer, which the store held when the call
had settled, is the only one with its id.  The facts come from the history of
the call, the identity of ids from the ledger, and the bound on the remaining
time from a clock which does not go back.
-/

namespace Eltanin.Agent

open Eltanin.Core Backend Protocol EventLog InterleavedSessions
  AuthorizationHandler

def Happening.reading? : Happening → Option MonotonicTime
  | .pruned now => some now
  | .timed now => some now
  | _ => none

def readings (agent : AgentState) : List MonotonicTime :=
  (agent.transcript.map Prod.snd).filterMap Happening.reading?

def NondecreasingClock (agent : AgentState) : Prop :=
  (readings agent).Pairwise (· ≤ ·)

instance (agent : AgentState) : Decidable (NondecreasingClock agent) :=
  inferInstanceAs (Decidable ((readings agent).Pairwise (· ≤ ·)))

section Grant

variable {handler : AuthorizationHandler} {actions : List AgentAction}
  {agent : AgentState} {i : ℕ} {call : Call} {request : LeaseRequest}

theorem le_of_grantEvents_sublist {issuedAt timedAt : MonotonicTime}
    {lease : ComputeLease} {rest : List Happening}
    (hclock : NondecreasingClock agent)
    (hword : agent.wordOf i = grantEvents issuedAt timedAt lease ++ rest) :
    issuedAt ≤ timedAt := by
  have hsublist : ((agent.wordOf i).filterMap Happening.reading?).Sublist
      (readings agent) := System.wordOf_sublist.filterMap _
  have hordered := hclock.sublist hsublist
  rw [hword] at hordered
  simp only [grantEvents, Happening.reading?, List.cons_append,
    List.filterMap_cons, List.nil_append, List.pairwise_cons] at hordered
  exact hordered.1 timedAt List.mem_cons_self

theorem Grants.lt_expiresAt {peer : PeerContext} {now later : MonotonicTime}
    {lease : ComputeLease} {view : LeaseView}
    (hgrants : Grants handler peer request now later lease view) :
    later < lease.expiresAt := by
  have hremains := hgrants.remains
  rw [hgrants.shown, Duration.IsZero,
    MonotonicTime.asNanos_saturatingDurationSince] at hremains
  rw [MonotonicTime.lt_iff_toNat_lt]
  omega

theorem Grants.remaining {peer : PeerContext} {now later : MonotonicTime}
    {lease : ComputeLease} {view : LeaseView}
    (hgrants : Grants handler peer request now later lease view)
    (horder : now ≤ later) :
    0 < view.remaining.asNanos ∧
      view.remaining.asNanos ≤ handler.config.leaseTtl.asNanos := by
  have hremaining : view.remaining.asNanos =
      lease.expiresAt.nanos.toNat - later.nanos.toNat := by
    rw [hgrants.shown]
    exact MonotonicTime.asNanos_saturatingDurationSince _ _
  have hexpires := hgrants.issued.expiresAt
  rw [MonotonicTime.le_iff_toNat_le] at horder
  exact ⟨Nat.pos_of_ne_zero hgrants.remains, by omega⟩

/-! ## What a call puts into the store -/

namespace CallTransition

variable {state next : LeaseState} {action : CallAction} {phase : Phase}
  {new : List Happening} {id : LeaseId} {lease : ComputeLease}

theorem stored_of_inserted_mem
    (htransition : CallTransition handler state call action next phase new)
    (hinserted : .inserted lease ∈ new) :
    action = .settle ∧ next.get lease.id = some lease := by
  cases htransition with
  | granted htimed hpositive =>
      have hsame : lease = _ :=
        Happening.inserted.inj (List.mem_singleton.mp hinserted)
      subst hsame
      exact ⟨rfl, LeaseState.get_insert_eq_some_iff.mpr (.inl ⟨rfl, rfl⟩)⟩
  | @released now backend release =>
      cases hreply : teardownReply (state.prune now) release.leaseId
        backend <;> simp [hreply] at hinserted
  | _ => simp at hinserted

/-- A lease is in the store because it was there, or has just been
inserted. -/
theorem get_cases
    (htransition : CallTransition handler state call action next phase new)
    (hstored : next.get id = some lease) :
    state.get id = some lease ∨ .inserted lease ∈ new := by
  have hpruned : ∀ {now}, (state.prune now).get id = some lease →
      state.get id = some lease :=
    fun hget => (LeaseState.get_prune_eq_some_iff.mp hget).1
  cases htransition with
  | granted htimed hpositive =>
      rcases LeaseState.get_insert_eq_some_iff.mp hstored with
        ⟨_, hsame⟩ | ⟨_, hold⟩
      · exact .inr (List.mem_singleton.mpr (congrArg _ hsame.symm))
      · exact .inl hold
  | released =>
      exact .inl (hpruned (LeaseState.get_remove_eq_some_iff.mp hstored).2)
  | issued => exact .inl (hpruned hstored)
  | issueFailed => exact .inl (hpruned hstored)
  | issuePanicked => exact .inl (hpruned hstored)
  | releaseRefused => exact .inl (hpruned hstored)
  | _ => exact .inl hstored

end CallTransition

/-- In the run the call takes this action, from one state to the other. -/
def AuthorizationHandler.Takes (handler : AuthorizationHandler)
    (actions : List AgentAction) (i : ℕ) (action : CallAction)
    (earlier later : AgentState) : Prop :=
  ∃ before after, actions = before ++ .act i action :: after ∧
    handler.Runs before earlier ∧
    handler.step earlier (.act i action) = some later

/-- A lease which a call has inserted is what the store held when the call had
settled. -/
theorem AuthorizationHandler.Runs.exists_settled
    (hruns : handler.Runs actions agent) {lease : ComputeLease}
    (hinserted : (i, .inserted lease) ∈ agent.transcript) :
    ∃ earlier settled, handler.Takes actions i .settle earlier settled ∧
      settled.shared.get lease.id = some lease := by
  obtain ⟨before, action, after, earlier, settled, hsplit, hbefore, hstep, -,
    hnot, hholds⟩ := PartialExecution.exists_establishing_step
      (fun agent : AgentState => (i, .inserted lease) ∈ agent.transcript)
      (by simp [initial, System.initial]) hinserted hruns
  cases action with
  | start opening =>
      cases hstep
      exact (hnot hholds).elim
  | act j action =>
      have hact := hstep
      obtain ⟨current, state, next, new, -, hreaches, rfl⟩ :=
        step_act_eq_some_iff.mp hact
      obtain ⟨phase, -, htransition⟩ := reaches_of_act hreaches
      rcases System.mem_transcript_advance_iff.mp hholds with
        hold | ⟨hsame, hnew⟩
      · exact (hnot hold).elim
      obtain rfl : i = j := hsame
      obtain ⟨rfl, hstored⟩ := htransition.stored_of_inserted_mem hnew
      exact ⟨earlier, _, ⟨before, after, hsplit, hbefore, hstep⟩, hstored⟩

/-- A call which never inserts a lease leaves nothing new in the store. -/
theorem AuthorizationHandler.Runs.get_of_takes
    (hruns : handler.Runs actions agent)
    (hnothing : ∀ lease, (i, .inserted lease) ∉ agent.transcript)
    {action : CallAction} {earlier later : AgentState}
    (htakes : handler.Takes actions i action earlier later) {id : LeaseId}
    {lease : ComputeLease} (hstored : later.shared.get id = some lease) :
    earlier.shared.get id = some lease := by
  obtain ⟨before, after, rfl, hbefore, hstep⟩ := htakes
  have hreachable : PartialExecution.Reachable handler.step later agent := by
    obtain ⟨middle, hmiddle, hrest⟩ :=
      PartialExecution.execute_append_eq_some_iff.mp hruns
    obtain rfl : earlier = middle :=
      Option.some.inj (Eq.trans (Eq.symm hbefore) hmiddle)
    obtain ⟨next, hnext, hafter⟩ :=
      PartialExecution.execute_cons_eq_some_iff.mp hrest
    rw [hstep, Option.some.injEq] at hnext
    exact ⟨after, hnext ▸ hafter⟩
  obtain ⟨current, state, next, new, -, hact, rfl⟩ :=
    step_act_eq_some_iff.mp hstep
  obtain ⟨phase, -, htransition⟩ := reaches_of_act hact
  rcases htransition.get_cases hstored with hold | hnew
  · exact hold
  · have hmem : (i, .inserted lease) ∈
        (earlier.advance i state next new).transcript :=
      System.mem_transcript_advance_iff.mpr (.inr ⟨rfl, hnew⟩)
    exact (hnothing lease (mem_transcript_of_reachable hreachable hmem)).elim

/-! ## What a grant says -/

/-- A grant which has been answered, and a clock which does not go back. -/
theorem AuthorizationHandler.Runs.grant_fully_authorized
    (hruns : handler.Runs actions agent)
    (hclock : NondecreasingClock agent)
    (hcall : agent.sessions[i]? = some call)
    (hrequest : call.request = .requestLease request) :
    (∀ view, call.phase = .answered (.leaseGranted view) →
      ∃ lease issuedAt timedAt event,
        call.peer.consistency = .consistent ∧
        (handler.policy.evaluate call.peer.observed
          ⟨request.resource, request.action⟩).effect = .allow ∧
        agent.wordOf i =
          [.pruned issuedAt, .issued lease,
            .enforced ⟨request.resource, request.action⟩
              (.returned (.ok .allowed)),
            .timed timedAt, .inserted lease, .recorded event] ∧
        lease.id = view.leaseId ∧
        lease.origin =
          ⟨call.peer.observed, ⟨request.resource, request.action⟩⟩ ∧
        lease.issuedAt = issuedAt ∧
        lease.expiresAt.nanos.toNat =
          issuedAt.nanos.toNat + handler.config.leaseTtl.asNanos ∧
        (∃ earlier settled, handler.Takes actions i .settle earlier settled ∧
          settled.shared.get view.leaseId = some lease) ∧
        (∀ j other, (j, .issued other) ∈ agent.transcript →
          other.id = view.leaseId → j = i ∧ other = lease) ∧
        0 < view.remaining.asNanos ∧
        view.remaining.asNanos ≤ handler.config.leaseTtl.asNanos) ∧
    ∀ response, call.response? = some response →
      (∀ view, response ≠ .leaseGranted view) →
        (∀ lease, (i, .inserted lease) ∉ agent.transcript) ∧
        ∀ action earlier later, handler.Takes actions i action earlier later →
          ∀ id lease, later.shared.get id = some lease →
            earlier.shared.get id = some lease := by
  have hexplained := hruns.explained hcall
  constructor
  · intro view hanswered
    simp only [Explained, hanswered, ConcludesWith] at hexplained
    obtain ⟨before, event, hword, asked, issuedAt, timedAt, lease, hasked,
      hgrants, hbefore⟩ := hexplained
    rw [hrequest, ClientRequest.requestLease.injEq] at hasked
    subst hasked
    have hissued := hgrants.issued
    have hevents : agent.wordOf i =
        grantEvents issuedAt timedAt lease ++ [.recorded event] := by
      rw [hword, hbefore]
    have horder : issuedAt ≤ timedAt :=
      le_of_grantEvents_sublist hclock hevents
    have hid : view.leaseId = lease.id := by rw [hgrants.shown]
    refine ⟨lease, issuedAt, timedAt, event, hissued.consistent,
      hissued.allowed, ?_, hid.symm, hissued.origin, hissued.issuedAt,
      hissued.expiresAt, ?_, ?_, hgrants.remaining horder⟩
    · rw [hevents, grantEvents, hissued.origin]
      rfl
    · rw [hid]
      apply hruns.exists_settled
      rw [← System.mem_wordOf_iff, hevents]
      simp [grantEvents]
    · intro j other hother hsame
      have hmem : (i, Happening.issued lease) ∈ agent.transcript := by
        rw [← System.mem_wordOf_iff, hevents]
        simp [grantEvents]
      have heq := hruns.ledgerInvariant.issuer.issued_distinct.eq_of_key_eq
        hother hmem (congrArg some (hsame.trans hid)) rfl
      simp only [Prod.mk.injEq, Happening.issued.injEq] at heq
      exact heq
  · intro response hresponse hnot
    have hnothing : ∀ lease, (i, .inserted lease) ∉ agent.transcript := by
      intro lease hinserted
      rw [← System.mem_wordOf_iff] at hinserted
      exact hexplained.insertsNothing hresponse hnot lease hinserted
    refine ⟨hnothing, ?_⟩
    intro action earlier later htakes id lease hstored
    exact hruns.get_of_takes hnothing htakes hstored

end Grant

def sampleView : LeaseView := ⟨⟨⟨"agent-1"⟩, 0⟩, ⟨59, by decide⟩⟩

def grantedCall : Call :=
  ⟨workerPeer .unsupported, sampleLeaseRequest,
    .answered (.leaseGranted sampleView)⟩

theorem getElem?_grantedState :
    grantedState.sessions[0]? = some grantedCall := by decide

theorem grantedCall_fully_authorized :
    (∀ view, grantedCall.phase = .answered (.leaseGranted view) →
      ∃ lease issuedAt timedAt event,
        grantedCall.peer.consistency = .consistent ∧
        (sampleHandler.policy.evaluate grantedCall.peer.observed
          sampleRequest).effect = .allow ∧
        grantedState.wordOf 0 =
          [.pruned issuedAt, .issued lease,
            .enforced sampleRequest (.returned (.ok .allowed)),
            .timed timedAt, .inserted lease, .recorded event] ∧
        lease.id = view.leaseId ∧
        lease.origin = ⟨grantedCall.peer.observed, sampleRequest⟩ ∧
        lease.issuedAt = issuedAt ∧
        lease.expiresAt.nanos.toNat = issuedAt.nanos.toNat + 60 ∧
        (∃ earlier settled,
          sampleHandler.Takes (grantActions .unsupported) 0 .settle earlier
            settled ∧
          settled.shared.get view.leaseId = some lease) ∧
        (∀ j other, (j, .issued other) ∈ grantedState.transcript →
          other.id = view.leaseId → j = 0 ∧ other = lease) ∧
        0 < view.remaining.asNanos ∧ view.remaining.asNanos ≤ 60) ∧
    ∀ response, grantedCall.response? = some response →
      (∀ view, response ≠ .leaseGranted view) →
        (∀ lease, (0, .inserted lease) ∉ grantedState.transcript) ∧
        ∀ action earlier later,
          sampleHandler.Takes (grantActions .unsupported) 0 action earlier
            later →
          ∀ id lease, later.shared.get id = some lease →
            earlier.shared.get id = some lease :=
  runs_grantedState.grant_fully_authorized (by decide) getElem?_grantedState
    rfl

end Eltanin.Agent
