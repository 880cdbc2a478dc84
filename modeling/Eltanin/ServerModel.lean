import Eltanin.PartialExecution
import Eltanin.TerminationModel

/-!
# The accept loop of the agent

One thread accepts connections and spawns a worker for each; a counter which
all of them share says how many slots are taken.  Every access to the counter
and to the shutdown flag is a step of its own, and so is whatever the
operating system decides: which connections get into the queue of the
listener, whether `accept` fails, whether a thread can be spawned, how a
connection's service ends, what the clock shows.  While the queue is empty
`accept` waits.
-/

namespace Eltanin.Agent

open Eltanin.Core
open Eltanin.Cli (Instant)

/-- The part of the configuration which the accept loop reads; a `usize` has
64 bits. -/
structure ServerConfig where
  maxConnections : UInt64
  drainTimeout : Duration

structure ShutdownReport where
  drained : ℕ
  abandoned : ℕ
  deriving DecidableEq, Repr

/-! ## Workers -/

/-- Where a worker thread is.  A panic of `serve_connection` is caught, so it
leaves as a normal return does; the slot is given back by the guard. -/
inductive WorkerPhase where
  | spawned
  | serving
  | leaving (panicked : Bool)
  | unguarded
  | finished
  deriving DecidableEq, Repr

structure Worker where
  connection : ℕ
  phase : WorkerPhase
  deriving DecidableEq, Repr

inductive WorkerAction where
  | enter
  | serve (panicked : Bool)
  | dropGuard
  | finish
  deriving DecidableEq, Repr

/-- One step of a worker: where it gets to, and the counter afterwards. -/
def WorkerPhase.act (phase : WorkerPhase) (active : UInt64)
    (action : WorkerAction) : Option (WorkerPhase × UInt64) :=
  match phase, action with
  | .spawned, .enter => some (.serving, active)
  | .serving, .serve panicked => some (.leaving panicked, active)
  | .leaving _, .dropGuard => some (.unguarded, active - 1)
  | .unguarded, .finish => some (.finished, active)
  | _, _ => none

/-! ## The accept loop -/

/-- Where the loop of `drain` is with the handle it waits for. -/
inductive DrainStage where
  | polling
  | expiring
  | sleeping
  deriving DecidableEq, Repr

/-- Where `run` is.  Between two of these places it touches nothing that
another thread can see. -/
inductive AcceptorPhase where
  | accepting
  | accepted (incoming : Option ℕ)
  | admitting (connection : ℕ)
  | reserving (connection : ℕ)
  | spawning (connection : ℕ)
  | unreserving
  | closing
  | draining (stage : DrainStage) (deadline : Instant) (handle : ℕ)
      (rest : List ℕ) (report : ShutdownReport)
  | returned (report : ShutdownReport)
  | panicked
  deriving DecidableEq

inductive AcceptorAction where
  | accept (succeeded : Bool)
  | loadFlag
  | loadActive
  | fetchAdd
  | spawn (succeeded : Bool)
  | fetchSub
  | startDrain (now : Instant)
  | poll
  | checkDeadline (now : Instant)
  | sleep
  deriving DecidableEq

/-- The connections are numbered in the order in which they were accepted,
and the handles are the numbers of the workers.  `pending` connections are in
the queue of the listener. -/
structure Server where
  acceptor : AcceptorPhase
  shutdownFlag : Bool
  active : UInt64
  workers : List Worker
  connectionThreads : List ℕ
  pending : ℕ
  accepted : ℕ
  dropped : List ℕ
  deriving DecidableEq

def Server.initial : Server := ⟨.accepting, false, 0, [], [], 0, 0, []⟩

/-- The loop of `drain` goes on to the next handle, or ends. -/
def settle (deadline : Instant) (handles : List ℕ) (report : ShutdownReport) :
    AcceptorPhase :=
  match handles with
  | [] => .returned report
  | handle :: rest => .draining .polling deadline handle rest report

def Server.acceptorStep (config : ServerConfig) (server : Server)
    (action : AcceptorAction) : Option Server :=
  match server.acceptor, action with
  | .accepting, .accept true =>
      if 0 < server.pending then
        some { server with
          acceptor := .accepted (some server.accepted)
          pending := server.pending - 1
          accepted := server.accepted + 1 }
      else none
  | .accepting, .accept false =>
      some { server with acceptor := .accepted none }
  | .accepted incoming, .loadFlag =>
      if server.shutdownFlag then
        some { server with
          acceptor := .closing
          dropped := server.dropped ++ incoming.toList }
      else
        match incoming with
        | none => some { server with acceptor := .accepting }
        | some connection =>
            some { server with acceptor := .admitting connection }
  | .admitting connection, .loadActive =>
      if server.active ≥ config.maxConnections then
        some { server with
          acceptor := .accepting
          dropped := server.dropped ++ [connection] }
      else some { server with acceptor := .reserving connection }
  | .reserving connection, .fetchAdd =>
      some { server with
        acceptor := .spawning connection
        active := server.active + 1 }
  | .spawning connection, .spawn true =>
      some { server with
        acceptor := .accepting
        workers := server.workers ++ [⟨connection, .spawned⟩]
        connectionThreads :=
          server.connectionThreads ++ [server.workers.length] }
  | .spawning connection, .spawn false =>
      -- The closure is dropped, and the connection with it.
      some { server with
        acceptor := .unreserving
        dropped := server.dropped ++ [connection] }
  | .unreserving, .fetchSub =>
      some { server with
        acceptor := .accepting
        active := server.active - 1 }
  | .closing, .startDrain now =>
      match now.add config.drainTimeout with
      | .panicked => some { server with acceptor := .panicked }
      | .returned deadline =>
          some { server with
            acceptor := settle deadline server.connectionThreads ⟨0, 0⟩ }
  | .draining .polling deadline handle rest report, .poll =>
      match server.workers[handle]? with
      | none => none
      | some worker =>
          if worker.phase = .finished then
            some { server with
              acceptor := settle deadline rest
                { report with drained := report.drained + 1 } }
          else
            some { server with
              acceptor := .draining .expiring deadline handle rest report }
  | .draining .expiring deadline handle rest report, .checkDeadline now =>
      if deadline ≤ now then
        some { server with
          acceptor := settle deadline rest
            { report with abandoned := report.abandoned + 1 } }
      else
        some { server with
          acceptor := .draining .sleeping deadline handle rest report }
  | .draining .sleeping deadline handle rest report, .sleep =>
      some { server with
        acceptor := .draining .polling deadline handle rest report }
  | _, _ => none

/-! ## All threads together -/

/-- The listener is closed when `run` is left. -/
def AcceptorPhase.isListening : AcceptorPhase → Bool
  | .returned _ => false
  | .panicked => false
  | _ => true

/-- `ShutdownHandle::shutdown` stores the flag and then connects to its own
socket, whatever comes of that; a client connects whenever it likes. -/
inductive ServerAction where
  | acceptor (action : AcceptorAction)
  | worker (index : ℕ) (action : WorkerAction)
  | connect
  | shutdown
  | wake (connected : Bool)
  deriving DecidableEq

/-- A connection gets into the queue. -/
def Server.enqueue (server : Server) : Option Server :=
  if server.acceptor.isListening then
    some { server with pending := server.pending + 1 }
  else none

def Server.workerStep (server : Server) (index : ℕ) (action : WorkerAction) :
    Option Server :=
  match server.workers[index]? with
  | none => none
  | some worker =>
      match worker.phase.act server.active action with
      | none => none
      | some (phase, active) =>
          some { server with
            workers := server.workers.set index { worker with phase := phase }
            active := active }

def Server.step (config : ServerConfig) (server : Server) :
    ServerAction → Option Server
  | .acceptor action => server.acceptorStep config action
  | .worker index action => server.workerStep index action
  | .connect => server.enqueue
  | .shutdown => some { server with shutdownFlag := true }
  | .wake connected =>
      if server.shutdownFlag then
        if connected then server.enqueue else some server
      else none

end Eltanin.Agent
