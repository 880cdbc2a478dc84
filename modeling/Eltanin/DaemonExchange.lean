import Eltanin.AuthorizationGrant
import Eltanin.DaemonSafety
import Eltanin.ExchangeOutcome

/-!
# Clients of a running daemon

A client's exchange runs over one of the connections of the daemon.  Whatever
the other clients do meanwhile and wherever its own messages are cut short, an
answer which it returns is that of the one call which was made for its request
and for the peer the agent has derived from its connection.
-/

namespace Eltanin.Agent

open Json Eltanin.Core Backend Protocol ByteStream InterleavedSessions
open Eltanin.Cli

/-- One exchange on the client's side. -/
structure Client where
  requestId : RequestId
  request : ClientRequest
  transport : Transport

namespace Client

def conversation (self : Client) (reception : Reception)
    (handler : ClientRequest → PeerContext → Completion AgentResponse) :
    Conversation where
  requestId := self.requestId
  request := self.request
  transport := self.transport
  timeoutsSet := reception.timeoutsSet
  peer := reception.peer
  agentReads := reception.stream
  handler := handler

def result (self : Client) (codec : ProtocolCodec) :
    Except ClientError AgentResponse :=
  exchange codec self.requestId self.request self.transport

def FindsFrame (self : Client) : Prop := self.transport.FindsFrame

end Client

/-- The client is at the other end of a connection which has been served: each
side reads no more than a first part of what the other has written, and the
messages which were written are read back as what they are. -/
structure ExchangedOver (codec : ProtocolCodec) (client : Client)
    (reception : Reception) (served : Served) (framed : List UInt8) :
    Prop where
  encoded : encodeRequest codec
    (.current ⟨client.requestId, client.request⟩) = .ok framed
  requested : delivered reception.stream <+: framed
  answered : ∀ response frame,
    served.written = .returned (some (response, frame)) →
      delivered client.transport.reads <+: frame
  silent : (∀ response frame,
    served.written ≠ .returned (some (response, frame))) →
      delivered client.transport.reads = []
  readsRequest : codec.ReadsRequest
    (.current ⟨client.requestId, client.request⟩)
  readsResponse : ∀ response frame,
    served.written = .returned (some (response, frame)) →
      codec.ReadsResponse response

section Over

variable {codec : ProtocolCodec} {client : Client} {reception : Reception}
  {served : Served} {framed : List UInt8}
  {handler : ClientRequest → PeerContext → Completion AgentResponse}

/-- Both messages have gone through whole. -/
theorem ExchangedOver.of_whole {response : Response} {frame : List UInt8}
    (hencoded : encodeRequest codec
      (.current ⟨client.requestId, client.request⟩) = .ok framed)
    (hstream : reception.stream = [.chunk framed])
    (hwritten : served.written = .returned (some (response, frame)))
    (hreads : client.transport.reads = [.chunk frame])
    (hrequest : codec.ReadsRequest
      (.current ⟨client.requestId, client.request⟩))
    (hresponse : codec.ReadsResponse response) :
    ExchangedOver codec client reception served framed where
  encoded := hencoded
  requested := by rw [hstream, Conversation.delivered_chunk]
  answered other found hfound := by
    rw [hwritten] at hfound
    cases hfound
    rw [hreads, Conversation.delivered_chunk]
  silent hsilent := (hsilent response frame hwritten).elim
  readsRequest := hrequest
  readsResponse other found hfound := by
    rw [hwritten] at hfound
    cases hfound
    exact hresponse

theorem ExchangedOver.connected
    (hover : ExchangedOver codec client reception served framed)
    (hserved : served = serveConnection codec reception.timeoutsSet
      reception.peer reception.stream handler) :
    (client.conversation reception handler).Connected codec framed := by
  subst hserved
  exact ⟨hover.encoded, hover.requested, hover.answered, hover.silent⟩

theorem ExchangedOver.readsBack
    (hover : ExchangedOver codec client reception served framed)
    (hserved : served = serveConnection codec reception.timeoutsSet
      reception.peer reception.stream handler) :
    (client.conversation reception handler).ReadsBack codec := by
  subst hserved
  exact ⟨hover.readsRequest, hover.readsResponse⟩

end Over

/-! ## The call behind an answer -/

/-- The call under this number is made for this request and this peer, and has
returned. -/
structure AnsweredBy (daemon : Daemon) (request : ClientRequest)
    (peer : Option PeerContext) (call : ℕ) (current : Call)
    (completion : Completion AgentResponse) : Prop where
  call : daemon.agent.sessions[call]? = some current
  request : current.request = request
  peer : peer = some current.peer
  returned : current.returned? = some completion

namespace AgentServer.Runs

variable {self : AgentServer} {actions : List DaemonAction} {daemon : Daemon}
  {client : Client} {reception : Reception} {call : Option ℕ}
  {served : Served} {framed : List UInt8} {answer : AgentResponse} {i : ℕ}

/-- An exchange with a running daemon returns an answer exactly when both
messages come through whole and a call was made on its connection, and then
it is what this call has returned. -/
theorem exchange_answered_by_own_call (hruns : self.Runs actions daemon)
    (hended : daemon.services[i]? = some (.ended reception call served))
    (hover : ExchangedOver self.codec client reception served framed) :
    client.result self.codec = .ok answer ↔
      client.FindsFrame ∧ delivered reception.stream = framed ∧
        ∃ n current completion, call = some n ∧
          AnsweredBy daemon client.request reception.peer n current
            completion ∧
          answer = Conversation.answerTo self.codec client.requestId
            (caught completion) := by
  have howned := hruns.coherent.callsOwned
  cases call with
  | none =>
      obtain ⟨hundispatched, hserved⟩ := howned.undispatched i _ _ hended
      have hsame := hserved fun _ _ => .panicked
      constructor
      · intro hresult
        obtain ⟨-, context, -, -, hdispatched, -⟩ :=
          Conversation.dispatched_of_result (hover.connected hsame)
            (hover.readsBack hsame) hresult
        have hnone : served.dispatched = some (client.request, context) :=
          hsame ▸ hdispatched
        rw [hundispatched] at hnone
        contradiction
      · rintro ⟨-, -, n, _, _, hcall, -⟩
        contradiction
  | some n =>
      obtain ⟨current, completion, halone⟩ :=
        howned.dispatched i _ _ _ hended
      have hsame := halone.served (fun _ _ => completion) rfl
      have hconnected := hover.connected hsame
      have hreads := hover.readsBack hsame
      have hdispatched : ((client.conversation reception
          fun _ _ => completion).served self.codec).dispatched =
            some (current.request, current.peer) := by
        rw [← halone.dispatched, hsame]
        rfl
      constructor
      · intro hresult
        obtain ⟨hfinds, context, hpeer, hwhole, hcontext, hanswer⟩ :=
          Conversation.dispatched_of_result hconnected hreads hresult
        rw [hdispatched, Option.some.injEq, Prod.mk.injEq] at hcontext
        exact ⟨hfinds, hwhole, n, current, completion, rfl,
          ⟨halone.call, hcontext.1, halone.peer, halone.returned⟩, hanswer⟩
      · rintro ⟨hfinds, hwhole, m, other, returned, hm, hby, rfl⟩
        cases hm
        have hreturned : returned = completion := by
          have hother := hby.call
          rw [halone.call, Option.some.injEq] at hother
          have hfound := hby.returned
          rw [← hother, halone.returned, Option.some.injEq] at hfound
          exact hfound.symm
        rw [hreturned]
        exact Conversation.result_of_whole hconnected hreads hfinds
          halone.peer hwhole

theorem answered_of_exchange (hruns : self.Runs actions daemon)
    (hended : daemon.services[i]? = some (.ended reception call served))
    (hover : ExchangedOver self.codec client reception served framed)
    (hresult : client.result self.codec = .ok answer)
    (hproper : answer ≠ .error .internal) :
    ∃ n current, call = some n ∧
      AnsweredBy daemon client.request reception.peer n current
        (.returned answer) := by
  obtain ⟨-, -, n, current, completion, hcall, hby, hanswer⟩ :=
    (hruns.exchange_answered_by_own_call hended hover).mp hresult
  refine ⟨n, current, hcall, ?_⟩
  unfold Conversation.answerTo at hanswer
  split at hanswer
  next =>
    cases completion with
    | returned response =>
        rw [caught] at hanswer
        exact hanswer ▸ hby
    | panicked => exact (hproper hanswer).elim
  next => exact (hproper hanswer).elim

/-- What a call which has granted a lease has gone through. -/
theorem grant_of_answered {request : ClientRequest}
    {peer : Option PeerContext} {n : ℕ} {current : Call} {view : LeaseView}
    (hruns : self.Runs actions daemon)
    (hby : AnsweredBy daemon request peer n current
      (.returned (.leaseGranted view))) :
    ∃ asked now later lease event, current.request = .requestLease asked ∧
      Grants self.handler current.peer asked now later lease view ∧
      daemon.agent.wordOf n =
        grantEvents now later lease ++ [.recorded event] := by
  have hphase : current.phase = .answered (.leaseGranted view) := by
    have hreturned := hby.returned
    unfold Call.returned? at hreturned
    split at hreturned
    next response hphase =>
      cases hreturned
      exact hphase
    next => simp at hreturned
    next => simp at hreturned
  have hexplained := hruns.agent.explained hby.call
  simp only [Explained, hphase, ConcludesWith] at hexplained
  obtain ⟨before, event, hword, asked, now, later, lease, hasked, hgrants,
    hbefore⟩ := hexplained
  exact ⟨asked, now, later, lease, event, hasked, hgrants,
    by rw [hword, hbefore]⟩

/-- A lease which a client of the daemon is granted was issued to the peer of
its own connection, for just what it asked, by a policy which allows it and
with the backend's consent. -/
theorem granted_exchange_was_authorized (hruns : self.Runs actions daemon)
    (hended : daemon.services[i]? = some (.ended reception call served))
    (hover : ExchangedOver self.codec client reception served framed)
    {view : LeaseView}
    (hresult : client.result self.codec = .ok (.leaseGranted view)) :
    ∃ n peer asked now later lease event, call = some n ∧
      reception.peer = some peer ∧ client.request = .requestLease asked ∧
      Grants self.handler peer asked now later lease view ∧
      daemon.agent.wordOf n =
        grantEvents now later lease ++ [.recorded event] := by
  obtain ⟨n, current, hcall, hby⟩ :=
    hruns.answered_of_exchange hended hover hresult nofun
  obtain ⟨asked, now, later, lease, event, hasked, hgrants, hword⟩ :=
    hruns.grant_of_answered hby
  exact ⟨n, current.peer, asked, now, later, lease, event, hcall, hby.peer,
    hby.request ▸ hasked, hgrants, hword⟩

end AgentServer.Runs

/-! ## The client which was granted a lease -/

def wireClient : Client where
  requestId := ⟨5⟩
  request := sampleLeaseRequest
  transport := ⟨defaultSocketPath, .ok (), .ok (), .ok (),
    [.chunk grantedFrame]⟩

theorem exchangedOver_wireServed :
    ExchangedOver wireCodec wireClient wireReception wireServed askedFrame :=
  .of_whole (by decide +kernel) rfl rfl rfl
    ⟨by decide +kernel, by decide +kernel⟩
    ⟨by decide +kernel, by decide +kernel⟩

theorem wireClient_was_authorized :
    ∃ n peer asked now later lease event, some 0 = some n ∧
      wireReception.peer = some peer ∧
      sampleLeaseRequest = .requestLease asked ∧
      Grants sampleHandler peer asked now later lease sampleView ∧
      servedDaemon.agent.wordOf n =
        grantEvents now later lease ++ [.recorded event] :=
  runs_servedDaemon.granted_exchange_was_authorized getElem?_servedDaemon
    exchangedOver_wireServed (by decide +kernel)

end Eltanin.Agent
