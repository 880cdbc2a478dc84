import Eltanin.LedgerRefinement
import Eltanin.PolicyEvidenceMonotonicity

/-!
# Capacity and reservations

The bound on outstanding leases is checked when a lease is issued and consumed
when it is inserted.  The reservations make up the difference: there is one for
each call between the two.  A call which unwinds out of the backend keeps its
reservation for good; the last part of this file says exactly what that costs.
-/

namespace Eltanin.Agent

open Eltanin.Core Backend Protocol EventLog InterleavedSessions
  AuthorizationHandler

/-- Issued a lease, and not yet settled. -/
def Phase.awaitsSettlement : Phase → Bool
  | .issued _ => true
  | .enforced _ _ => true
  | .timed _ _ => true
  | _ => false

/-- Unwound with a lease in hand. -/
def Phase.leaked : Phase → Bool
  | .unwound (some _) => true
  | _ => false

def callsIn (agent : AgentState) (property : Phase → Bool) : Finset ℕ :=
  (Finset.range agent.sessions.length).filter fun i =>
    (agent.sessions[i]?).any fun call => property call.phase

/-- A granted lease, neither released nor pruned since. -/
def GrantOutstanding (agent : AgentState) (id : LeaseId) : Prop :=
  ∃ lease, lease.id = id ∧ Outstanding agent.transcript lease

def EnforcePanics : AgentAction → Prop
  | .act _ (.enforce .panicked) => True
  | _ => False

section Capacity

variable {handler : AuthorizationHandler} {actions : List AgentAction}
  {agent : AgentState}

theorem mem_callsIn_iff {property : Phase → Bool} {i : ℕ} :
    i ∈ callsIn agent property ↔
      ∃ call, agent.sessions[i]? = some call ∧
        property call.phase = true := by
  simp only [callsIn, Finset.mem_filter, Finset.mem_range,
    Option.any_eq_true]
  constructor
  · intro hcall
    exact hcall.2
  · intro hcall
    rcases hcall with ⟨call, hget, hproperty⟩
    exact ⟨(List.getElem?_eq_some_iff.mp hget).1, call, hget, hproperty⟩

theorem Phase.isSome_held?_iff (phase : Phase) :
    phase.held?.isSome = true ↔
      phase.awaitsSettlement = true ∨ phase.leaked = true := by
  cases phase with
  | unwound held => cases held <;> simp [held?, awaitsSettlement, leaked]
  | arrived => simp [held?, awaitsSettlement, leaked]
  | issued lease => simp [held?, awaitsSettlement]
  | enforced lease reply => simp [held?, awaitsSettlement]
  | timed lease remaining => simp [held?, awaitsSettlement]
  | concluded conclusion => simp [held?, awaitsSettlement, leaked]
  | answered response => simp [held?, awaitsSettlement, leaked]

theorem isSome_held_ledgerOf_iff {i : ℕ} :
    ((ledgerOf agent).held i).isSome = true ↔
      ∃ call, agent.sessions[i]? = some call ∧
        call.phase.held?.isSome = true := by
  cases hcall : agent.sessions[i]? with
  | none => simp [ledgerOf, hcall]
  | some call => simp [ledgerOf, hcall]

/-- In every run each reservation belongs to a call which awaits settlement or
has leaked it. -/
theorem AuthorizationHandler.Runs.reserved_eq
    (hruns : handler.Runs actions agent) :
    agent.shared.reserved =
      (callsIn agent Phase.awaitsSettlement).card +
        (callsIn agent Phase.leaked).card := by
  obtain ⟨holders, hholders, hcard⟩ :=
    hruns.ledgerInvariant.occupancy.reserved
  have hreserved : agent.shared.reserved = holders.card := hcard
  have hdisjoint : Disjoint (callsIn agent Phase.awaitsSettlement)
      (callsIn agent Phase.leaked) := by
    rw [Finset.disjoint_left]
    intro i hawaits hleaked
    obtain ⟨call, hget, hphase⟩ := mem_callsIn_iff.mp hawaits
    obtain ⟨other, hother, hunwound⟩ := mem_callsIn_iff.mp hleaked
    rw [hget] at hother
    rw [← Option.some.inj hother] at hunwound
    cases hcase : call.phase <;>
      simp [hcase, Phase.awaitsSettlement, Phase.leaked] at hphase hunwound
  have hunion : holders = callsIn agent Phase.awaitsSettlement ∪
      callsIn agent Phase.leaked := by
    ext i
    rw [hholders, isSome_held_ledgerOf_iff, Finset.mem_union,
      mem_callsIn_iff, mem_callsIn_iff, ← exists_or]
    simp only [Phase.isSome_held?_iff, and_or_left]
  rw [hreserved, hunion, Finset.card_union_of_disjoint hdisjoint]

theorem AuthorizationHandler.Runs.occupied_le
    (hruns : handler.Runs actions agent) :
    agent.shared.leases.size + agent.shared.reserved ≤
      handler.config.maxOutstandingLeases := by
  have hoccupancy := hruns.ledgerInvariant.occupancy
  exact hoccupancy.maxOutstanding ▸ hoccupancy.room

theorem card_le_size_of_forall_outstanding
    (hruns : handler.Runs actions agent) (ids : Finset LeaseId)
    (hids : ∀ id ∈ ids, GrantOutstanding agent id) :
    ids.card ≤ agent.shared.leases.size := by
  have hsubset : ids ⊆ agent.shared.leases.keys.toFinset := by
    intro id hid
    obtain ⟨lease, hlease, houtstanding⟩ := hids id hid
    have hstored : agent.shared.get id = some lease :=
      hruns.ledgerInvariant.holdings.stored_iff.mpr ⟨hlease, houtstanding⟩
    rw [List.mem_toFinset, ← AList.mem_keys, ← AList.lookup_isSome]
    exact Option.isSome_of_eq_some hstored
  have hcard := Finset.card_le_card hsubset
  have hlength := List.toFinset_card_le agent.shared.leases.keys
  have hkeys : agent.shared.leases.keys.length =
      agent.shared.leases.size := List.length_map _
  omega

theorem AuthorizationHandler.Runs.callsIn_leaked_eq_empty
    (hruns : handler.Runs actions agent)
    (hreturns : ∀ action ∈ actions, ¬EnforcePanics action) :
    callsIn agent Phase.leaked = ∅ := by
  have hnone : ∀ (i : ℕ) (call : Call),
      agent.sessions[i]? = some call → call.phase.leaked = false := by
    refine Program.guarded_run_invariant
      (fun _ action => ¬EnforcePanics action)
      (fun agent : AgentState => ∀ (i : ℕ) (call : Call),
        agent.sessions[i]? = some call → call.phase.leaked = false)
      ?_ ?_ ?_ (PartialExecution.guarded_of_forall
        fun action haction _ => hreturns action haction) hruns
    · intro agent opening hagent i call hcall
      rcases System.getElem?_enroll_eq_some_iff.mp hcall with
        ⟨_, hstart⟩ | hold
      · rw [hstart]
        rfl
      · exact hagent i call hold
    · intro agent i action call next after new _ hagent hguard hcall hact j
        found hfound
      rcases (System.getElem?_advance_eq_some_iff hcall).mp hfound with
        ⟨_, heq⟩ | ⟨_, hold⟩
      · obtain ⟨phase, hafter, htransition⟩ := reaches_of_act hact
        rw [heq, hafter]
        cases htransition with
        | enforcePanicked => exact (hguard trivial).elim
        | released =>
            cases releaseConclusion _ _ <;> rfl
        | _ => rfl
      · exact hagent j found hold
    · intro i call hcall
      simp [AuthorizationHandler.initial, System.initial] at hcall
  rw [Finset.eq_empty_iff_forall_notMem]
  intro i hmem
  obtain ⟨call, hcall, hleaked⟩ := mem_callsIn_iff.mp hmem
  rw [hnone i call hcall] at hleaked
  contradiction

/-- Capacity is never overshot and reservations balance: however requests and
releases interleave and whatever the clock shows, as long as enforcement
returns there is exactly one reservation for each call awaiting settlement. -/
theorem AuthorizationHandler.Runs.capacity_never_overshot
    (hruns : handler.Runs actions agent)
    (hreturns : ∀ action ∈ actions, ¬EnforcePanics action) :
    agent.shared.leases.size + agent.shared.reserved ≤
        handler.config.maxOutstandingLeases ∧
      agent.shared.reserved =
        (callsIn agent Phase.awaitsSettlement).card ∧
      (∀ i ∈ callsIn agent Phase.awaitsSettlement,
        0 < agent.shared.reserved) ∧
      ∀ ids : Finset LeaseId, (∀ id ∈ ids, GrantOutstanding agent id) →
        ids.card ≤ handler.config.maxOutstandingLeases := by
  have hoccupied := hruns.occupied_le
  have hreserved : agent.shared.reserved =
      (callsIn agent Phase.awaitsSettlement).card := by
    rw [hruns.reserved_eq, hruns.callsIn_leaked_eq_empty hreturns,
      Finset.card_empty, Nat.add_zero]
  refine ⟨hoccupied, hreserved, ?_, ?_⟩
  · intro i hmem
    rw [hreserved]
    exact Finset.card_pos.mpr ⟨i, hmem⟩
  · intro ids hids
    have hsize := card_le_size_of_forall_outstanding hruns ids hids
    omega

end Capacity

/-! ## A handler with one slot -/

def workerContext (executableHash : Evidence String) : ExecutionContext :=
  let context := rootContextWithUid (.present 1000 .kernelObserved)
  { context with workload :=
      { context.workload with executableHash := executableHash } }

def workerPeer (executableHash : Evidence String) : PeerContext where
  credential := ⟨7, 1000, 1000⟩
  consistency := .consistent
  observed := workerContext executableHash

def sampleHandler : AuthorizationHandler where
  instanceId := ⟨"agent-1"⟩
  policy := samplePolicy
  config := ⟨⟨60, by decide⟩, 1, by decide⟩

def sampleLeaseRequest : ClientRequest :=
  .requestLease ⟨sampleResource, .compute⟩

def grantActions (executableHash : Evidence String) : List AgentAction :=
  [.start (workerPeer executableHash, sampleLeaseRequest),
    .act 0 (.issue ⟨0⟩),
    .act 0 (.enforce (.returned (.ok .allowed))),
    .act 0 (.readClock ⟨1⟩),
    .act 0 .settle,
    .act 0 .record]

def grantedState : AgentState :=
  sampleHandler.finalState (grantActions .unsupported) (by decide)

theorem runs_grantedState :
    sampleHandler.Runs (grantActions .unsupported) grantedState :=
  runs_finalState _

/-- The backend has consented, and the lease is not in the store yet. -/
def enforcedActions : List AgentAction := (grantActions .unsupported).take 3

def enforcedState : AgentState :=
  sampleHandler.finalState enforcedActions (by decide)

theorem runs_enforcedState :
    sampleHandler.Runs enforcedActions enforcedState :=
  runs_finalState _

theorem enforcedState_capacity_never_overshot :
    0 ∈ callsIn enforcedState Phase.awaitsSettlement ∧
      enforcedState.shared.leases.size + enforcedState.shared.reserved ≤ 1 ∧
      enforcedState.shared.reserved =
        (callsIn enforcedState Phase.awaitsSettlement).card ∧
      (∀ i ∈ callsIn enforcedState Phase.awaitsSettlement,
        0 < enforcedState.shared.reserved) ∧
      ∀ ids : Finset LeaseId,
        (∀ id ∈ ids, GrantOutstanding enforcedState id) → ids.card ≤ 1 :=
  ⟨by decide, runs_enforcedState.capacity_never_overshot
    (by simp [enforcedActions, grantActions, EnforcePanics])⟩

/-! ## What a panic in the backend costs -/

def Phase.finished : Phase → Bool
  | .answered _ => true
  | .unwound _ => true
  | _ => false

def NoCallInFlight (agent : AgentState) : Prop :=
  ∀ call ∈ agent.sessions, call.phase.finished = true

instance (agent : AgentState) : Decidable (NoCallInFlight agent) :=
  inferInstanceAs
    (Decidable (∀ call ∈ agent.sessions, call.phase.finished = true))

/-- The handler turns a new request of this peer away for lack of capacity. -/
def Exhausted (handler : AuthorizationHandler) (agent : AgentState)
    (peer : PeerContext) (request : LeaseRequest) (now : MonotonicTime) :
    Prop :=
  ∃ next outstanding response,
    PartialExecution.execute handler.step agent
      (opening agent peer (.requestLease request) (.issue now)) =
        some next ∧
    next.sessions[agent.sessions.length]? =
      some ⟨peer, .requestLease request,
        .concluded ⟨.capacityExhausted outstanding, response⟩⟩

/-- While no request is in flight, an authorizable peer is turned away for
lack of capacity only if that many unexpired leases are in the store. -/
def ExhaustionHonest (handler : AuthorizationHandler) (agent : AgentState) :
    Prop :=
  NoCallInFlight agent →
    ∀ peer request now, peer.authorizable.isSome = true →
      Exhausted handler agent peer request now →
        handler.config.maxOutstandingLeases ≤
          (agent.shared.prune now).leases.size

section Exhausted

variable {handler : AuthorizationHandler} {actions : List AgentAction}
  {agent : AgentState} {peer : PeerContext} {request : LeaseRequest}
  {now : MonotonicTime}

theorem beginRequestLease_exhausted_iff {state : LeaseState}
    {observed : ExecutionContext}
    (hpeer : peer.authorizable = some observed) :
    (∃ outstanding response,
      (handler.beginRequestLease state
        ⟨peer, .requestLease request, .arrived⟩ request now).2.1 =
          ⟨peer, .requestLease request, .concluded
            ⟨.capacityExhausted outstanding, response⟩⟩) ↔
      (state.prune now).IsAtCapacity := by
  rw [← issueReservingCapacity_exhausted_iff handler
    (provenanceFor request observed)]
  simp only [beginRequestLease, hpeer]
  cases hsection : handler.issueReservingCapacity state
      (provenanceFor request observed) now with
  | mk next completion =>
      cases completion with
      | panicked => simp [Call.advanceTo]
      | returned result =>
          cases result with
          | ok lease => simp [Call.advanceTo]
          | error failure =>
              cases failure <;> simp [Call.advanceTo, IssueFailure.conclude]

theorem exhausted_iff_isAtCapacity
    (hpeer : peer.authorizable.isSome = true) :
    Exhausted handler agent peer request now ↔
      (agent.shared.prune now).IsAtCapacity := by
  obtain ⟨observed, hobserved⟩ := Option.isSome_iff_exists.mp hpeer
  have hact : handler.act agent.shared
      ⟨peer, .requestLease request, .arrived⟩ (.issue now) =
        some (handler.beginRequestLease agent.shared
          ⟨peer, .requestLease request, .arrived⟩ request now) := rfl
  rw [← beginRequestLease_exhausted_iff hobserved]
  constructor
  · intro hexhausted
    rcases hexhausted with ⟨next, outstanding, response, hrun, hconcluded⟩
    obtain ⟨state, after, new, hresult, hnext⟩ :=
      execute_opening_eq_some_iff.mp hrun
    rw [hnext, getElem?_opening, Option.some.injEq] at hconcluded
    rw [hact, Option.some.injEq] at hresult
    exact ⟨outstanding, response, by rw [hresult, hconcluded]⟩
  · intro hphase
    rcases hphase with ⟨outstanding, response, hafter⟩
    exact ⟨_, outstanding, response,
      execute_opening_eq_some_iff.mpr ⟨_, _, _, hact, rfl⟩,
      getElem?_opening.trans (congrArg some hafter)⟩

/-- In a state of any run without a request in flight, exactly the leaked
reservations stand in for leases which are not there. -/
theorem AuthorizationHandler.Runs.exhausted_iff
    (hruns : handler.Runs actions agent) (hquiet : NoCallInFlight agent)
    (hpeer : peer.authorizable.isSome = true) :
    Exhausted handler agent peer request now ↔
      handler.config.maxOutstandingLeases ≤
        (agent.shared.prune now).leases.size +
          (callsIn agent Phase.leaked).card := by
  have hnone : callsIn agent Phase.awaitsSettlement = ∅ := by
    rw [Finset.eq_empty_iff_forall_notMem]
    intro i hmem
    obtain ⟨call, hcall, hawaits⟩ := mem_callsIn_iff.mp hmem
    have hfinished := hquiet call (List.mem_of_getElem? hcall)
    cases hphase : call.phase <;>
      simp [hphase, Phase.awaitsSettlement, Phase.finished]
        at hawaits hfinished
  have hreserved : agent.shared.reserved =
      (callsIn agent Phase.leaked).card := by
    rw [hruns.reserved_eq, hnone, Finset.card_empty, Nat.zero_add]
  have hmax : agent.shared.maxOutstanding =
      handler.config.maxOutstandingLeases :=
    hruns.ledgerInvariant.occupancy.maxOutstanding
  rw [exhausted_iff_isAtCapacity hpeer, LeaseState.IsAtCapacity,
    ← hreserved, ← hmax]
  rfl

/-- As long as enforcement returns, no request is ever turned away for
capacity which is not really taken. -/
theorem AuthorizationHandler.Runs.exhaustion_honest
    (hruns : handler.Runs actions agent)
    (hreturns : ∀ action ∈ actions, ¬EnforcePanics action) :
    ExhaustionHonest handler agent := by
  intro hquiet peer request now hpeer hexhausted
  have hfull := (hruns.exhausted_iff hquiet hpeer).mp hexhausted
  rw [hruns.callsIn_leaked_eq_empty hreturns, Finset.card_empty,
    Nat.add_zero] at hfull
  exact hfull

end Exhausted

theorem grantedState_exhaustion_honest :
    ExhaustionHonest sampleHandler grantedState :=
  runs_grantedState.exhaustion_honest
    (by simp [grantActions, EnforcePanics])

/-- The only slot is lost to one enforcement which unwinds: the next request
is turned away although no lease is stored and none is in flight. -/
def leakActions : List AgentAction :=
  [.start (workerPeer .unsupported, sampleLeaseRequest),
    .act 0 (.issue ⟨0⟩),
    .act 0 (.enforce .panicked)]

def leakedState : AgentState :=
  sampleHandler.finalState leakActions (by decide)

theorem panic_can_exhaust_empty_store :
    ¬∀ (handler : AuthorizationHandler) (actions : List AgentAction)
        (agent : AgentState),
      handler.Runs actions agent → ExhaustionHonest handler agent := by
  intro hall
  have hhonest := hall sampleHandler leakActions leakedState
    (runs_finalState (by decide))
  have hquiet : NoCallInFlight leakedState := by decide
  have hexhausted : Exhausted sampleHandler leakedState
      (workerPeer .unsupported) ⟨sampleResource, .compute⟩ ⟨0⟩ :=
    (exhausted_iff_isAtCapacity (by decide)).mpr (by decide)
  have hstored := hhonest hquiet _ _ _ (by decide) hexhausted
  revert hstored
  decide

end Eltanin.Agent
