import Eltanin.AuthorizationModel
import Eltanin.InterleavedSessions

/-!
# The agent as a system of interleaved calls

Each connection makes one call of `AuthorizationHandler::handle`.  A call is
atomic only in its locked sections: between issuing a lease, the backend's
enforcement, the second clock reading and the settlement, any other call may
run.  The clock and the backend answer arbitrarily, and the backend may unwind;
`serve_connection` catches that and answers with an internal error.
-/

namespace Eltanin.Agent

open Eltanin.Core Backend Protocol InterleavedSessions

inductive Phase where
  | arrived
  | issued (lease : ComputeLease)
  | enforced (lease : ComputeLease) (reply : BackendReply)
  | timed (lease : ComputeLease) (remaining : Duration)
  | concluded (conclusion : Conclusion)
  | answered (response : AgentResponse)
  | unwound (held : Option ComputeLease)
  deriving DecidableEq

structure Call where
  peer : PeerContext
  request : ClientRequest
  phase : Phase
  deriving DecidableEq

inductive CallAction where
  | status
  | issue (now : MonotonicTime)
  | enforce (reply : Completion BackendReply)
  | readClock (now : MonotonicTime)
  | settle
  | release (now : MonotonicTime) (backend : Completion BackendReply)
  | record

/-- What can be observed of a call: its clock readings, its calls of the
backend, its changes of the store and the event it records.  `pruned` is a
reading taken under the lock, `timed` the one taken without it. -/
inductive Happening where
  | pruned (now : MonotonicTime)
  | issued (lease : ComputeLease)
  | enforced (request : ComputeRequest) (reply : Completion BackendReply)
  | timed (now : MonotonicTime)
  | inserted (lease : ComputeLease)
  | compensated (id : LeaseId)
  | released (id : LeaseId)
  | backendRevoked (resource : ResourceIdentity)
      (reply : Completion BackendReply)
  | recorded (event : AuthorizationEvent)
  deriving DecidableEq

namespace Call

def advanceTo (self : Call) (phase : Phase) : Call :=
  { self with phase := phase }

def operation (self : Call) : Operation :=
  match self.request with
  | .agentStatus => .agentStatus
  | .requestLease _ => .requestLease
  | .releaseLease _ => .releaseLease

def event (self : Call) (conclusion : Conclusion) : AuthorizationEvent where
  operation := self.operation
  request := self.request
  peer := self.peer
  outcome := conclusion.outcome
  response := conclusion.response

/-- The response of the call as soon as it is determined.  An unwound call is
answered by `serve_connection` itself. -/
def response? (self : Call) : Option AgentResponse :=
  match self.phase with
  | .concluded conclusion => some conclusion.response
  | .answered response => some response
  | .unwound _ => some (.error .internal)
  | _ => none

end Call

/-- A handler function which returns has concluded; one which panics unwinds
without a lease in hand. -/
def Phase.ofCompletion : Completion Conclusion → Phase
  | .returned conclusion => .concluded conclusion
  | .panicked => .unwound none

namespace AuthorizationHandler

/-- The observable part of the locked section of `ReleaseLease`. -/
def ReleaseSection.happenings (result : ReleaseSection) (now : MonotonicTime)
    (backend : Completion BackendReply) : List Happening :=
  .pruned now :: match result.removed, result.tornDown with
    | none, _ => []
    | some id, none => [.released id]
    | some id, some resource =>
        [.released id, .backendRevoked resource backend]

/-- Start of `handle_request_lease` up to the unlocked enforcement. -/
def beginRequestLease (self : AuthorizationHandler) (state : LeaseState)
    (call : Call) (request : LeaseRequest) (now : MonotonicTime) :
    LeaseState × Call × List Happening :=
  match call.peer.authorizable with
  | none =>
      (state, call.advanceTo (.concluded ⟨.peerNotAuthorizable,
        .leaseDenied .indeterminateEvidence⟩), [])
  | some observed =>
      match self.issueReservingCapacity state
          (provenanceFor request observed) now with
      | (next, .returned (.ok lease)) =>
          (next, call.advanceTo (.issued lease), [.pruned now, .issued lease])
      | (next, .returned (.error failure)) =>
          (next, call.advanceTo (.concluded failure.conclude), [.pruned now])
      | (next, .panicked) =>
          (next, call.advanceTo (.unwound none), [.pruned now])

def performReleaseLease (state : LeaseState) (call : Call)
    (request : ReleaseRequest) (now : MonotonicTime)
    (backend : Completion BackendReply) :
    LeaseState × Call × List Happening :=
  match call.peer.authorizable with
  | none =>
      (state, call.advanceTo (.concluded ⟨.peerNotAuthorizable,
        .leaseReleased .refused⟩), [])
  | some observed =>
      let result := handleReleaseLease state request observed now backend
      (result.state, call.advanceTo (.ofCompletion result.completion),
        result.happenings now backend)

def enforceLease (state : LeaseState) (call : Call)
    (lease : ComputeLease) (reply : Completion BackendReply) :
    LeaseState × Call × List Happening :=
  match reply with
  | .returned result =>
      (state, call.advanceTo (.enforced lease result),
        [.enforced lease.origin.request (.returned result)])
  | .panicked =>
      (state, call.advanceTo (.unwound (some lease)),
        [.enforced lease.origin.request .panicked])

/-- The three ways in which `handle_request_lease` settles an issued lease.
After an allowing reply the clock is read first. -/
def settleLease (state : LeaseState) (call : Call) :
    Option (LeaseState × Call × List Happening) :=
  match call.phase with
  | .timed lease remaining =>
      let settled := settleAllowed state lease remaining
      some (settled.1, call.advanceTo (.concluded settled.2),
        [if remaining.IsZero then .compensated lease.id
          else .inserted lease])
  | .enforced lease (.ok result) =>
      if result = .allowed then none
      else
        let settled := settleRefused state lease (.enforcementRefused result)
        some (settled.1, call.advanceTo (.concluded settled.2),
          [.compensated lease.id])
  | .enforced lease (.error error) =>
      let settled := settleRefused state lease (.backendFailed error)
      some (settled.1, call.advanceTo (.concluded settled.2),
        [.compensated lease.id])
  | _ => none

/-- One atomic action of one call; `none` when the call is not at a point
where it could take this action. -/
def act (self : AuthorizationHandler) (state : LeaseState) (call : Call) :
    CallAction → Option (LeaseState × Call × List Happening)
  | .status =>
      match call.phase, call.request with
      | .arrived, .agentStatus =>
          some (state, call.advanceTo (.concluded handleStatus), [])
      | _, _ => none
  | .issue now =>
      match call.phase, call.request with
      | .arrived, .requestLease request =>
          some (self.beginRequestLease state call request now)
      | _, _ => none
  | .enforce reply =>
      match call.phase with
      | .issued lease => some (enforceLease state call lease reply)
      | _ => none
  | .readClock now =>
      match call.phase with
      | .enforced lease (.ok .allowed) =>
          let remaining := lease.expiresAt.saturatingDurationSince now
          some (state, call.advanceTo (.timed lease remaining), [.timed now])
      | _ => none
  | .settle => settleLease state call
  | .release now backend =>
      match call.phase, call.request with
      | .arrived, .releaseLease request =>
          some (performReleaseLease state call request now backend)
      | _, _ => none
  | .record =>
      match call.phase with
      | .concluded conclusion =>
          some (state, call.advanceTo (.answered conclusion.response),
            [.recorded (call.event conclusion)])
      | _ => none

end AuthorizationHandler

/-! ## The system -/

abbrev AgentState := System LeaseState Call Happening

abbrev AgentAction := Action (PeerContext × ClientRequest) CallAction

namespace AuthorizationHandler

def program (self : AuthorizationHandler) :
    Program LeaseState Call (PeerContext × ClientRequest) CallAction
      Happening where
  start opening := ⟨opening.1, opening.2, .arrived⟩
  act := self.act

def step (self : AuthorizationHandler) :
    AgentState → AgentAction → Option AgentState :=
  self.program.step

def initial (self : AuthorizationHandler) : AgentState :=
  System.initial self.newState

/-- The calls, interleaved in the order of the actions, take a new handler to
this state. -/
def Runs (self : AuthorizationHandler) (actions : List AgentAction)
    (agent : AgentState) : Prop :=
  PartialExecution.execute self.step self.initial actions = some agent

theorem step_act_eq_some_iff {self : AuthorizationHandler}
    {agent next : AgentState} {i : ℕ} {action : CallAction} :
    self.step agent (.act i action) = some next ↔
      ∃ call state after new, agent.sessions[i]? = some call ∧
        self.act agent.shared call action = some (state, after, new) ∧
        next = agent.advance i state after new :=
  Program.step_act_eq_some_iff

/-- A new call and its first action, with the index the call gets. -/
def opening (agent : AgentState) (peer : PeerContext)
    (request : ClientRequest) (action : CallAction) : List AgentAction :=
  [.start (peer, request), .act agent.sessions.length action]

theorem execute_opening_eq_some_iff {self : AuthorizationHandler}
    {agent next : AgentState} {peer : PeerContext} {request : ClientRequest}
    {action : CallAction} :
    PartialExecution.execute self.step agent
        (opening agent peer request action) = some next ↔
      ∃ state after new,
        self.act agent.shared ⟨peer, request, .arrived⟩ action =
          some (state, after, new) ∧
        next = (agent.enroll ⟨peer, request, .arrived⟩).advance
          agent.sessions.length state after new := by
  have hcall : (agent.enroll ⟨peer, request, .arrived⟩).sessions[
      agent.sessions.length]? = some ⟨peer, request, .arrived⟩ :=
    System.getElem?_enroll_eq_some_iff.mpr (.inl ⟨rfl, rfl⟩)
  have hstart : self.step agent (.start (peer, request)) =
      some (agent.enroll ⟨peer, request, .arrived⟩) := rfl
  simp only [opening, PartialExecution.execute_cons_eq_some_iff, hstart,
    Option.some.injEq, exists_eq_left', PartialExecution.execute_nil,
    exists_eq_right]
  rw [step_act_eq_some_iff]
  constructor
  · intro hresult
    rcases hresult with ⟨call, state, after, new, hfound, hact, hnext⟩
    rw [hcall] at hfound
    rw [← Option.some.inj hfound] at hact
    exact ⟨state, after, new, hact, hnext⟩
  · intro hresult
    rcases hresult with ⟨state, after, new, hact, hnext⟩
    exact ⟨_, state, after, new, hcall, hact, hnext⟩

theorem getElem?_opening {agent : AgentState} {peer : PeerContext}
    {request : ClientRequest} {state : LeaseState} {after : Call}
    {new : List Happening} :
    ((agent.enroll ⟨peer, request, .arrived⟩).advance
      agent.sessions.length state after new).sessions[
        agent.sessions.length]? = some after := by
  have hcall : (agent.enroll ⟨peer, request, .arrived⟩).sessions[
      agent.sessions.length]? = some ⟨peer, request, .arrived⟩ :=
    System.getElem?_enroll_eq_some_iff.mpr (.inl ⟨rfl, rfl⟩)
  exact (System.getElem?_advance_eq_some_iff hcall).mpr (.inl ⟨rfl, rfl⟩)

def finalState (self : AuthorizationHandler) (actions : List AgentAction)
    (henabled :
      (PartialExecution.execute self.step self.initial actions).isSome) :
    AgentState :=
  Option.get _ henabled

def nextState (self : AuthorizationHandler) (agent : AgentState)
    (action : AgentAction) (henabled : (self.step agent action).isSome) :
    AgentState :=
  Option.get _ henabled

theorem step_nextState {self : AuthorizationHandler} {agent : AgentState}
    {action : AgentAction} (henabled : (self.step agent action).isSome) :
    self.step agent action = some (self.nextState agent action henabled) :=
  (Option.some_get henabled).symm

theorem runs_finalState {self : AuthorizationHandler}
    {actions : List AgentAction}
    (henabled :
      (PartialExecution.execute self.step self.initial actions).isSome) :
    self.Runs actions (self.finalState actions henabled) :=
  (Option.some_get henabled).symm

end AuthorizationHandler

end Eltanin.Agent
