import Eltanin.AuthorizationGrant
import Eltanin.CallHistory
import Eltanin.DaemonComposition
import Eltanin.WireJson

/-!
# What holds in a running daemon

However its threads are scheduled, a connection comes to what
`serve_connection` alone would make of it with the answer of its own call, and
no more calls run at once than connections are admitted.  A grant which is
written on a connection is one for the request which was read from it and for
the peer which it was derived from.
-/

namespace Eltanin.Agent

open Json Eltanin.Core Backend Protocol ByteStream InterleavedSessions
open PartialExecution

/-! ## One call for each connection -/

theorem receive_eq_inl {codec : ProtocolCodec} {reception : Reception}
    {served : Served} (hreceive : receive codec reception = .inl served) :
    served.dispatched = none := by
  unfold receive at hreceive
  split at hreceive
  next =>
    cases hreceive
    rfl
  next =>
    split at hreceive
    next =>
      cases hreceive
      rfl
    next =>
      split at hreceive
      next =>
        cases hreceive
        rfl
      next =>
        cases hreceive
        rfl
      next =>
        cases hreceive
        rfl
      next =>
        split at hreceive
        next =>
          cases hreceive
          rfl
        next => contradiction

/-- What a request was read from. -/
theorem receive_eq_inr {codec : ProtocolCodec} {reception : Reception}
    {arrival : Arrival}
    (hreceive : receive codec reception = .inr arrival) :
    reception.timeoutsSet = true ∧ reception.peer = some arrival.peer ∧
      ∃ body, readFrame reception.stream = (.ok body, arrival.unread) ∧
        decodeRequest codec body = .ok arrival.request := by
  unfold receive at hreceive
  split at hreceive
  next => contradiction
  next hset =>
    split at hreceive
    next => contradiction
    next peer hpeer =>
      split at hreceive
      next => contradiction
      next => contradiction
      next => contradiction
      next body unread hread =>
        split at hreceive
        next => contradiction
        next request hdecode =>
          cases hreceive
          exact ⟨Bool.not_eq_false _ ▸ hset, hpeer, body, hread, hdecode⟩

/-- The connection under this number has come to `served`, in the way in which
a connection does alone, with the answer of the given call. -/
structure ServedAlone (codec : ProtocolCodec) (daemon : Daemon)
    (reception : Reception) (call : ℕ) (served : Served) (current : Call)
    (completion : Completion AgentResponse) : Prop where
  call : daemon.agent.sessions[call]? = some current
  returned : current.returned? = some completion
  dispatched : served.dispatched = some (current.request, current.peer)
  peer : reception.peer = some current.peer
  served : ∀ handler : ClientRequest → PeerContext →
      Completion AgentResponse,
    handler current.request current.peer = completion →
      served = serveConnection codec reception.timeoutsSet
        reception.peer reception.stream handler

/-- Connections and calls correspond: a connection which was dispatched comes
to what its own call has returned, one which was not comes to the same
whatever a handler does, and every call belongs to exactly one connection. -/
structure CallsOwned (codec : ProtocolCodec) (daemon : Daemon) : Prop where
  dispatched : ∀ (i : ℕ) reception call served,
    daemon.services[i]? = some (.ended reception (some call) served) →
      ∃ current completion, ServedAlone codec daemon reception call served
        current completion
  undispatched : ∀ (i : ℕ) reception served,
    daemon.services[i]? = some (.ended reception none served) →
      served.dispatched = none ∧
        ∀ handler, served = serveConnection codec reception.timeoutsSet
          reception.peer reception.stream handler
  exclusive : ∀ (i j call : ℕ),
    daemon.services[i]?.bind Service.call? = some call →
      daemon.services[j]?.bind Service.call? = some call → i = j
  owned : ∀ call, call < daemon.agent.sessions.length ↔
    ∃ i : ℕ, daemon.services[i]?.bind Service.call? = some call

theorem Service.FollowsCall.servedAlone {codec : ProtocolCodec}
    {daemon : Daemon} {reception : Reception} {call : ℕ} {served : Served}
    (hfollows : (Service.ended reception (some call) served).FollowsCall
      codec daemon.agent) :
    ∃ current completion, ServedAlone codec daemon reception call served
      current completion := by
  obtain ⟨arrival, current, completion, hreceive, hmade, hreturned,
    hserved⟩ := hfollows
  obtain ⟨hcall, hpeer, hrequest⟩ := hmade
  refine ⟨current, completion, hcall, hreturned, ?_, ?_, ?_⟩
  · rw [hserved, hpeer, hrequest]
    rfl
  · rw [hpeer]
    exact (receive_eq_inr hreceive).2.1
  · intro handler hanswer
    rw [serveConnection_eq, hreceive]
    simp only
    rw [← hpeer, ← hrequest, hanswer]
    exact hserved

theorem Coherent.callsOwned {codec : ProtocolCodec} {daemon : Daemon}
    (hcoherent : Coherent codec daemon) : CallsOwned codec daemon where
  dispatched i _ _ _ hended := (hcoherent.follows i _ hended).servedAlone
  undispatched i reception served hended := by
    have hreceive : receive codec reception = .inl served :=
      hcoherent.follows i _ hended
    refine ⟨receive_eq_inl hreceive, ?_⟩
    intro handler
    rw [serveConnection_eq, hreceive]
  exclusive i j call hfirst hsecond := by
    obtain ⟨first, hi, hfirst⟩ := Option.bind_eq_some_iff.mp hfirst
    obtain ⟨second, hj, hsecond⟩ := Option.bind_eq_some_iff.mp hsecond
    have hnodup : (daemon.services.filterMap Service.call?).Nodup :=
      hcoherent.calls.nodup_iff.mpr List.nodup_range
    exact IndexedList.eq_of_filterMap_nodup hnodup hi hj hfirst hsecond
  owned call := by
    rw [← List.mem_range, ← hcoherent.calls.mem_iff, List.mem_filterMap]
    constructor
    · rintro ⟨service, hmem, hcall⟩
      obtain ⟨i, hi⟩ := List.mem_iff_getElem?.mp hmem
      exact ⟨i, by rw [hi, Option.bind_some, hcall]⟩
    · rintro ⟨i, hbind⟩
      obtain ⟨service, hi, hcall⟩ := Option.bind_eq_some_iff.mp hbind
      exact ⟨service, List.mem_of_getElem? hi, hcall⟩

/-! ## Calls in flight -/

def Call.inFlight (self : Call) : Bool := self.returned?.isNone

theorem Coherent.inFlight_le {codec : ProtocolCodec} {daemon : Daemon}
    (hcoherent : Coherent codec daemon) :
    daemon.agent.sessions.countP Call.inFlight ≤
      daemon.services.countP Service.isHandling := by
  rw [IndexedList.countP_eq_countP_range, ← hcoherent.calls.countP_eq,
    List.countP_filterMap]
  apply List.countP_mono_left
  intro service hmem hflying
  obtain ⟨i, hi⟩ := List.mem_iff_getElem?.mp hmem
  have hfollows := hcoherent.follows i service hi
  cases service with
  | pending => contradiction
  | raised => contradiction
  | handling reception arrival call => rfl
  | ended reception call served =>
      cases call with
      | none => contradiction
      | some call =>
          obtain ⟨_, current, completion, -, hmade, hreturned, -⟩ := hfollows
          simp [Service.call?, hmade.1, Call.inFlight, hreturned]
            at hflying

theorem Coherent.handling_le {codec : ProtocolCodec} {daemon : Daemon}
    (hcoherent : Coherent codec daemon) :
    daemon.services.countP Service.isHandling ≤
      daemon.server.workers.countP Worker.holdsSlot := by
  apply IndexedList.countP_le_countP
  intro i service hservice hhandling
  have hlt : i < daemon.server.workers.length := by
    rw [← hcoherent.length]
    exact (List.getElem?_eq_some_iff.mp hservice).1
  have hworker := List.getElem?_eq_getElem hlt
  refine ⟨_, hworker, ?_⟩
  have hfits := hcoherent.fits i service _ hservice hworker
  cases service with
  | handling reception arrival call =>
      have hserving : (daemon.server.workers[i]).phase = .serving := hfits
      rw [Worker.holdsSlot, hserving]
      rfl
  | _ => contradiction

namespace AgentServer.Runs

variable {self : AgentServer} {actions : List DaemonAction} {daemon : Daemon}

theorem calls_owned (hruns : self.Runs actions daemon) :
    CallsOwned self.codec daemon :=
  hruns.coherent.callsOwned

/-- No more calls of the handler are in flight than connections hold a slot,
and no more of these than are configured. -/
theorem calls_in_flight_bounded (hruns : self.Runs actions daemon) :
    daemon.agent.sessions.countP Call.inFlight ≤
        daemon.server.active.toNat ∧
      daemon.server.active.toNat ≤ self.config.maxConnections.toNat := by
  have hbalanced := (serverInvariant_of_run hruns.server).balanced
  refine ⟨?_, hbalanced.bounded⟩
  rw [hbalanced.balanced, Server.slotHolders]
  exact (hruns.coherent.inFlight_le.trans hruns.coherent.handling_le).trans
    (Nat.le_add_left _ _)

end AgentServer.Runs

/-! ## A lease over the wire -/

/-- A text of which the parser knows two documents. -/
def knowingBoth (first second : JsonValue) : JsonText where
  float bits := Nat.toDigits 10 bits.toNat
  parse bytes :=
    if bytes = TextLines.encode
        (compact (fun bits => Nat.toDigits 10 bits.toNat) first) then
      some first
    else if bytes = TextLines.encode
        (compact (fun bits => Nat.toDigits 10 bits.toNat) second) then
      some second
    else none
  errorText _ := "expected value"

def askedMessage : Request := .current ⟨⟨5⟩, sampleLeaseRequest⟩

def grantedMessage : Response := .current ⟨some ⟨5⟩, .leaseGranted sampleView⟩

def wireCodec : ProtocolCodec :=
  .ofJson (knowingBoth (requestJson askedMessage)
    (responseJson grantedMessage))

def wireFrame (payload : List UInt8) : List UInt8 :=
  u32ToBeBytes payload.length ++ payload

def askedFrame : List UInt8 := wireFrame (wireCodec.printRequest askedMessage)

def grantedFrame : List UInt8 :=
  wireFrame (wireCodec.printResponse grantedMessage)

def wireServer : AgentServer where
  config := ⟨1, .fromNanos 0⟩
  codec := wireCodec
  handler := sampleHandler

def wireReception : Reception where
  timeoutsSet := true
  peer := some (workerPeer .unsupported)
  stream := [.chunk askedFrame]

/-- A client connects, and the worker of this number gets to serve it. -/
def acceptActions (index : ℕ) : List DaemonAction :=
  [.server .connect, .server (.acceptor (.accept true)),
    .server (.acceptor .loadFlag), .server (.acceptor .loadActive),
    .server (.acceptor .fetchAdd), .server (.acceptor (.spawn true)),
    .server (.worker index .enter)]

/-- A lease is issued, and the backend is about to be called. -/
def enforcingActions : List DaemonAction :=
  acceptActions 0 ++
    [.receive 0 (.returned wireReception), .handle 0 (.issue ⟨0⟩)]

def enforcingDaemon : Daemon :=
  wireServer.finalState enforcingActions (by decide +kernel)

theorem runs_enforcingDaemon :
    wireServer.Runs enforcingActions enforcingDaemon :=
  AgentServer.runs_finalState _

theorem enforcingDaemon_calls_in_flight :
    enforcingDaemon.agent.sessions.countP Call.inFlight = 1 ∧
      enforcingDaemon.agent.sessions.countP Call.inFlight ≤
          enforcingDaemon.server.active.toNat ∧
        enforcingDaemon.server.active.toNat ≤
          wireServer.config.maxConnections.toNat :=
  ⟨by decide +kernel, runs_enforcingDaemon.calls_in_flight_bounded⟩

/-- The connection is served to its end, and `run` goes on. -/
def servedActions : List DaemonAction :=
  enforcingActions ++
    [.handle 0 (.enforce (.returned (.ok .allowed))),
      .handle 0 (.readClock ⟨1⟩), .handle 0 .settle, .handle 0 .record,
      .reply 0]

def servedDaemon : Daemon :=
  wireServer.finalState servedActions (by decide +kernel)

theorem runs_servedDaemon : wireServer.Runs servedActions servedDaemon :=
  AgentServer.runs_finalState _

def wireServed : Served where
  dispatched := some (sampleLeaseRequest, workerPeer .unsupported)
  written := .returned (some (grantedMessage, grantedFrame))
  unread := []

theorem getElem?_servedDaemon :
    servedDaemon.services[0]? =
      some (.ended wireReception (some 0) wireServed) := by
  decide +kernel

theorem servedDaemon_calls_owned : CallsOwned wireCodec servedDaemon :=
  runs_servedDaemon.calls_owned

end Eltanin.Agent
