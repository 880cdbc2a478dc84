import Eltanin.AgentModel
import Eltanin.ConnectionModel
import Eltanin.ExecutionRefinement
import Eltanin.ServerModel

/-!
# The whole daemon

The threads of `AgentServer::run` serve connections, and each connection calls
the one `AuthorizationHandler` they share.  What a worker does before it calls
the handler and after the handler has returned touches nothing that another
thread can see, so each is one step; the call itself is as many steps as it
has in the system of interleaved calls.
-/

namespace Eltanin.Agent

open Eltanin.Core Backend Protocol ByteStream InterleavedSessions

/-! ## `serve_connection` around its call -/

/-- What a connection meets: whether the timeouts could be set, what the
derivation of the peer returned, and what the stream brings. -/
structure Reception where
  timeoutsSet : Bool
  peer : Option PeerContext
  stream : List Delivery
  deriving DecidableEq

/-- What the handler is called for, and what is left of the stream. -/
structure Arrival where
  request : Request
  peer : PeerContext
  unread : List Delivery
  deriving DecidableEq

deriving instance DecidableEq for Served

/-- `serve_connection` up to the call of the handler, unless it returns
before. -/
def receive (codec : ProtocolCodec) (reception : Reception) :
    Served ⊕ Arrival :=
  if reception.timeoutsSet = false then
    .inl ⟨none, .returned none, reception.stream⟩
  else
    match reception.peer with
    | none => .inl ⟨none, wrote (fail codec none .internal), reception.stream⟩
    | some peer =>
        match readFrame reception.stream with
        | (.eof, unread) => .inl ⟨none, .returned none, unread⟩
        | (.failed, unread) =>
            .inl ⟨none, wrote (fail codec none .malformedRequest), unread⟩
        | (.oversized, unread) =>
            .inl ⟨none, wrote (fail codec none .oversized), unread⟩
        | (.ok body, unread) =>
            match decodeRequest codec body with
            | .error error =>
                .inl ⟨none, wrote (refuse codec body error), unread⟩
            | .ok request => .inr ⟨request, peer, unread⟩

namespace Arrival

def call (self : Arrival) : Call :=
  ⟨self.peer, self.request.payload.body, .arrived⟩

/-- The rest of `serve_connection`, from the handler's return on. -/
def conclude (self : Arrival) (codec : ProtocolCodec)
    (completion : Completion AgentResponse) : Served :=
  ⟨some (self.request.payload.body, self.peer),
    wrote (send codec (some self.request.payload.requestId)
      (caught completion)),
    self.unread⟩

end Arrival

theorem serveConnection_eq (codec : ProtocolCodec) (reception : Reception)
    (handler : ClientRequest → PeerContext → Completion AgentResponse) :
    serveConnection codec reception.timeoutsSet reception.peer
        reception.stream handler =
      match receive codec reception with
      | .inl served => served
      | .inr arrival =>
          arrival.conclude codec
            (handler arrival.request.payload.body arrival.peer) := by
  unfold serveConnection receive
  split
  · rfl
  cases reception.peer with
  | none => rfl
  | some peer =>
      simp only
      rcases readFrame reception.stream with ⟨read, unread⟩
      cases read with
      | eof => rfl
      | failed => rfl
      | oversized => rfl
      | ok body =>
          simp only
          cases decodeRequest codec body with
          | error error => rfl
          | ok request => rfl

/-- How a call of `handle` returns, once it has. -/
def Call.returned? (self : Call) : Option (Completion AgentResponse) :=
  match self.phase with
  | .answered response => some (.returned response)
  | .unwound _ => some .panicked
  | _ => none

/-! ## A connection with its worker -/

inductive Service where
  | pending
  | handling (reception : Reception) (arrival : Arrival) (call : ℕ)
  | ended (reception : Reception) (call : Option ℕ) (served : Served)
  | raised
  deriving DecidableEq

namespace Service

/-- The call which the service has made of the handler. -/
def call? : Service → Option ℕ
  | .handling _ _ call => some call
  | .ended _ call _ => call
  | _ => none

def isHandling : Service → Bool
  | .handling _ _ _ => true
  | _ => false

/-- Whether `serve_connection` has panicked, once it has come to its end. -/
def panicked? : Service → Option Bool
  | .ended _ _ ⟨_, .returned _, _⟩ => some false
  | .ended _ _ ⟨_, .panicked, _⟩ => some true
  | .raised => some true
  | _ => none

end Service

/-- What the daemon is built from and does not change. -/
structure AgentServer where
  config : ServerConfig
  codec : ProtocolCodec
  handler : AuthorizationHandler

/-- There is one service for each worker, under the same number. -/
structure Daemon where
  server : Server
  agent : AgentState
  services : List Service

inductive DaemonAction where
  | server (action : ServerAction)
  | receive (index : ℕ) (reception : Completion Reception)
  | handle (index : ℕ) (action : CallAction)
  | reply (index : ℕ)

namespace Daemon

def setService (self : Daemon) (index : ℕ) (service : Service) : Daemon :=
  { self with services := self.services.set index service }

/-- A worker is done with its connection when the service of it is over, and
the way in which it is. -/
def admits (self : Daemon) : ServerAction → Bool
  | .worker index (.serve panicked) =>
      (self.services[index]?.bind Service.panicked?) = some panicked
  | _ => true

def isServing (self : Daemon) (index : ℕ) : Bool :=
  (self.server.workers[index]?.map Worker.phase) = some .serving

end Daemon

def ServerAction.newServices : ServerAction → List Service
  | .acceptor (.spawn true) => [.pending]
  | _ => []

namespace AgentServer

def initial (self : AgentServer) : Daemon :=
  ⟨.initial, self.handler.initial, []⟩

def serverStep (self : AgentServer) (daemon : Daemon)
    (action : ServerAction) : Option Daemon :=
  if daemon.admits action then
    match daemon.server.step self.config action with
    | none => none
    | some server =>
        some
          { daemon with
            server := server
            services := daemon.services ++ action.newServices }
  else none

/-- A panic here is one of the foreign derivation of the peer. -/
def receiveStep (self : AgentServer) (daemon : Daemon) (index : ℕ)
    (reception : Completion Reception) : Option Daemon :=
  if daemon.isServing index then
    match daemon.services[index]?, reception with
    | some .pending, .panicked => some (daemon.setService index .raised)
    | some .pending, .returned reception =>
        match receive self.codec reception with
        | .inl served =>
            some (daemon.setService index (.ended reception none served))
        | .inr arrival =>
            some
              { daemon.setService index
                  (.handling reception arrival daemon.agent.sessions.length)
                with agent := daemon.agent.enroll arrival.call }
    | _, _ => none
  else none

def handleStep (self : AgentServer) (daemon : Daemon) (index : ℕ)
    (action : CallAction) : Option Daemon :=
  match daemon.services[index]? with
  | some (.handling _ _ call) =>
      match self.handler.step daemon.agent (.act call action) with
      | none => none
      | some agent => some { daemon with agent := agent }
  | _ => none

def replyStep (self : AgentServer) (daemon : Daemon) (index : ℕ) :
    Option Daemon :=
  match daemon.services[index]? with
  | some (.handling reception arrival call) =>
      match daemon.agent.sessions[call]?.bind Call.returned? with
      | none => none
      | some completion =>
          some (daemon.setService index
            (.ended reception (some call)
              (arrival.conclude self.codec completion)))
  | _ => none

def step (self : AgentServer) (daemon : Daemon) :
    DaemonAction → Option Daemon
  | .server action => self.serverStep daemon action
  | .receive index reception => self.receiveStep daemon index reception
  | .handle index action => self.handleStep daemon index action
  | .reply index => self.replyStep daemon index

/-- The daemon, started anew, gets to this state. -/
def Runs (self : AgentServer) (actions : List DaemonAction)
    (daemon : Daemon) : Prop :=
  PartialExecution.execute self.step self.initial actions = some daemon

def finalState (self : AgentServer) (actions : List DaemonAction)
    (henabled :
      (PartialExecution.execute self.step self.initial actions).isSome) :
    Daemon :=
  Option.get _ henabled

theorem runs_finalState {self : AgentServer} {actions : List DaemonAction}
    (henabled :
      (PartialExecution.execute self.step self.initial actions).isSome) :
    self.Runs actions (self.finalState actions henabled) :=
  (Option.some_get henabled).symm

end AgentServer

/-! ## What a step can do -/

inductive DaemonTransition (self : AgentServer) (daemon : Daemon) :
    DaemonAction → Daemon → Prop where
  | server {action : ServerAction} {server : Server}
      (hadmits : daemon.admits action = true)
      (hstep : daemon.server.step self.config action = some server) :
      DaemonTransition self daemon (.server action)
        { daemon with
          server := server
          services := daemon.services ++ action.newServices }
  | raise {index : ℕ} (hserving : daemon.isServing index = true)
      (hpending : daemon.services[index]? = some .pending) :
      DaemonTransition self daemon (.receive index .panicked)
        (daemon.setService index .raised)
  | refuse {index : ℕ} {reception : Reception} {served : Served}
      (hserving : daemon.isServing index = true)
      (hpending : daemon.services[index]? = some .pending)
      (hreceive : receive self.codec reception = .inl served) :
      DaemonTransition self daemon (.receive index (.returned reception))
        (daemon.setService index (.ended reception none served))
  | arrive {index : ℕ} {reception : Reception} {arrival : Arrival}
      (hserving : daemon.isServing index = true)
      (hpending : daemon.services[index]? = some .pending)
      (hreceive : receive self.codec reception = .inr arrival) :
      DaemonTransition self daemon (.receive index (.returned reception))
        { daemon.setService index
            (.handling reception arrival daemon.agent.sessions.length)
          with agent := daemon.agent.enroll arrival.call }
  | handle {index call : ℕ} {action : CallAction} {reception : Reception}
      {arrival : Arrival} {agent : AgentState}
      (hhandling : daemon.services[index]? =
        some (.handling reception arrival call))
      (hstep : self.handler.step daemon.agent (.act call action) =
        some agent) :
      DaemonTransition self daemon (.handle index action)
        { daemon with agent := agent }
  | reply {index call : ℕ} {reception : Reception} {arrival : Arrival}
      {current : Call} {completion : Completion AgentResponse}
      (hhandling : daemon.services[index]? =
        some (.handling reception arrival call))
      (hcall : daemon.agent.sessions[call]? = some current)
      (hreturned : current.returned? = some completion) :
      DaemonTransition self daemon (.reply index)
        (daemon.setService index
          (.ended reception (some call)
            (arrival.conclude self.codec completion)))

namespace AgentServer

variable {self : AgentServer} {daemon next : Daemon} {index : ℕ}

theorem transition_of_receiveStep {reception : Completion Reception}
    (hstep : self.receiveStep daemon index reception = some next) :
    DaemonTransition self daemon (.receive index reception) next := by
  unfold receiveStep at hstep
  by_cases hserving : daemon.isServing index = true
  · rw [if_pos hserving] at hstep
    split at hstep
    next hpending =>
      cases hstep
      exact .raise hserving hpending
    next reception hpending =>
      split at hstep
      next served hreceive =>
        cases hstep
        exact .refuse hserving hpending hreceive
      next arrival hreceive =>
        cases hstep
        exact .arrive hserving hpending hreceive
    next => contradiction
  · rw [if_neg hserving] at hstep
    contradiction

/-- The inversion of `step`. -/
theorem transition_of_step {action : DaemonAction}
    (hstep : self.step daemon action = some next) :
    DaemonTransition self daemon action next := by
  cases action with
  | server action =>
      simp only [step, serverStep] at hstep
      by_cases hadmits : daemon.admits action = true
      · rw [if_pos hadmits] at hstep
        split at hstep
        next => contradiction
        next server hserver =>
          cases hstep
          exact .server hadmits hserver
      · rw [if_neg hadmits] at hstep
        contradiction
  | receive index reception => exact transition_of_receiveStep hstep
  | handle index action =>
      simp only [step, handleStep] at hstep
      split at hstep
      next hhandling =>
        split at hstep
        next => contradiction
        next agent hact =>
          cases hstep
          exact .handle hhandling hact
      next => contradiction
  | reply index =>
      simp only [step, replyStep] at hstep
      split at hstep
      next hhandling =>
        split at hstep
        next => contradiction
        next completion hbind =>
          obtain ⟨current, hcall, hreturned⟩ :=
            Option.bind_eq_some_iff.mp hbind
          cases hstep
          exact .reply hhandling hcall hreturned
      next => contradiction

end AgentServer

end Eltanin.Agent
