import Eltanin.CallTransitions
import Eltanin.ConnectionSlots
import Eltanin.DaemonModel
import Eltanin.IndexedList

/-!
# What the daemon is composed of

Seen from the handler, a run of the daemon is a run of interleaved calls; seen
from the accept loop, it is a run of its threads.  Between the two stands the
correspondence of connections and calls: a connection makes no call or one,
no other connection makes the same, and what is written on it follows from
what its own call has returned.
-/

namespace Eltanin.Agent

open Eltanin.Core Backend Protocol ByteStream InterleavedSessions
open PartialExecution

/-! ## The two parts -/

namespace AgentServer

variable {self : AgentServer}

theorem server_step_of_transition {daemon next : Daemon}
    {action : DaemonAction}
    (htransition : DaemonTransition self daemon action next) :
    (∃ seen, action = .server seen ∧
      daemon.server.step self.config seen = some next.server) ∨
    ((∀ seen, action ≠ .server seen) ∧ next.server = daemon.server) := by
  cases htransition with
  | server hadmits hstep => exact .inl ⟨_, rfl, hstep⟩
  | raise hserving hpending => exact .inr ⟨nofun, rfl⟩
  | refuse hserving hpending hreceive => exact .inr ⟨nofun, rfl⟩
  | arrive hserving hpending hreceive => exact .inr ⟨nofun, rfl⟩
  | handle hhandling hstep => exact .inr ⟨nofun, rfl⟩
  | reply hhandling hcall hreturned => exact .inr ⟨nofun, rfl⟩

/-- The steps of the accept loop and its threads. -/
def serverTrace : DaemonAction → List ServerAction
  | .server action => [action]
  | _ => []

def serverRefinement (self : AgentServer) :
    Refinement self.step (Server.step self.config) where
  image := Daemon.server
  trace _ action := serverTrace action
  simulates daemon action next hstep := by
    rcases server_step_of_transition (transition_of_step hstep) with
      ⟨seen, rfl, hseen⟩ | ⟨hother, hsame⟩
    · exact execute_cons_eq_some_iff.mpr ⟨_, hseen, rfl⟩
    · rw [hsame]
      cases action with
      | server seen => exact (hother seen rfl).elim
      | _ => rfl

/-- The steps of the calls: a call begins where a request has been decoded. -/
def agentTrace (self : AgentServer) (daemon : Daemon) :
    DaemonAction → List AgentAction
  | .receive _ (.returned reception) =>
      match receive self.codec reception with
      | .inl _ => []
      | .inr arrival => [.start (arrival.peer, arrival.request.payload.body)]
  | .handle index action =>
      match daemon.services[index]? with
      | some (.handling _ _ call) => [.act call action]
      | _ => []
  | _ => []

def agentRefinement (self : AgentServer) :
    Refinement self.step self.handler.step where
  image := Daemon.agent
  trace := self.agentTrace
  simulates daemon action next hstep := by
    cases transition_of_step hstep with
    | server hadmits hserver => rfl
    | raise hserving hpending => rfl
    | refuse hserving hpending hreceive => simp [agentTrace, hreceive,
        Daemon.setService]
    | arrive hserving hpending hreceive =>
        simp only [agentTrace, hreceive]
        exact execute_cons_eq_some_iff.mpr ⟨_, rfl, rfl⟩
    | handle hhandling hact =>
        simp only [agentTrace, hhandling]
        exact execute_cons_eq_some_iff.mpr ⟨_, hact, rfl⟩
    | reply hhandling hcall hreturned => rfl

end AgentServer

/-! ## What a call keeps -/

/-- The calls of the first state are there in the second, for the same peers
and requests, and those which have returned have returned the same. -/
def CallsPersist (before after : AgentState) : Prop :=
  ∀ (i : ℕ) (current : Call), before.sessions[i]? = some current →
    ∃ later, after.sessions[i]? = some later ∧
      later.peer = current.peer ∧ later.request = current.request ∧
      ∀ completion, current.returned? = some completion →
        later.returned? = some completion

theorem returned?_of_transition {handler : AuthorizationHandler}
    {state next : LeaseState} {call : Call} {action : CallAction}
    {phase : Phase} {new : List Happening}
    (htransition :
      CallTransition handler state call action next phase new) :
    call.returned? = none := by
  unfold Call.returned?
  cases htransition with
  | status harrived hrequest => rw [harrived]
  | requestRefused harrived hrequest hpeer => rw [harrived]
  | issued harrived hrequest hpeer hroom hissued => rw [harrived]
  | issueFailed harrived hrequest hpeer hfailed => rw [harrived]
  | issuePanicked harrived hrequest hpeer hpanicked => rw [harrived]
  | enforced hissued => rw [hissued]
  | enforcePanicked hissued => rw [hissued]
  | timed henforced => rw [henforced]
  | granted htimed hpositive => rw [htimed]
  | withdrawn hwithdraws =>
      generalize call.phase = reached at hwithdraws
      cases hwithdraws with
      | lapsed hzero => rfl
      | refused hrefused => rfl
      | failed => rfl
  | releaseRefusedUnlocked harrived hrequest hpeer => rw [harrived]
  | releaseRefused harrived hrequest hpeer hnot hrefused => rw [harrived]
  | released harrived hrequest hpeer hreleasable => rw [harrived]
  | recorded hconcluded => rw [hconcluded]

theorem callsPersist_enroll (agent : AgentState) (call : Call) :
    CallsPersist agent (agent.enroll call) := by
  intro i current hcurrent
  exact ⟨current, System.getElem?_enroll_eq_some_iff.mpr (.inr hcurrent),
    rfl, rfl, fun _ hreturned => hreturned⟩

theorem callsPersist_act {handler : AuthorizationHandler}
    {agent next : AgentState} {call : ℕ} {action : CallAction}
    (hstep : handler.step agent (.act call action) = some next) :
    CallsPersist agent next := by
  obtain ⟨moved, state, after, new, hmoved, hact, hnext⟩ :=
    AuthorizationHandler.step_act_eq_some_iff.mp hstep
  obtain ⟨phase, hafter, htransition⟩ := reaches_of_act hact
  intro i current hcurrent
  rw [hnext]
  by_cases heq : i = call
  · have hfound :
        (agent.advance call state after new).sessions[i]? = some after :=
      (System.getElem?_advance_eq_some_iff hmoved).mpr (.inl ⟨heq, rfl⟩)
    have hsame : moved = current := by
      rw [heq, hmoved] at hcurrent
      exact Option.some.inj hcurrent
    refine ⟨after, hfound, ?_, ?_, ?_⟩
    · rw [hafter, hsame]
      rfl
    · rw [hafter, hsame]
      rfl
    · intro completion hreturned
      rw [← hsame, returned?_of_transition htransition] at hreturned
      contradiction
  · exact ⟨current,
      (System.getElem?_advance_eq_some_iff hmoved).mpr
        (.inr ⟨heq, hcurrent⟩),
      rfl, rfl, fun _ hreturned => hreturned⟩

theorem length_sessions_act {handler : AuthorizationHandler}
    {agent next : AgentState} {call : ℕ} {action : CallAction}
    (hstep : handler.step agent (.act call action) = some next) :
    next.sessions.length = agent.sessions.length := by
  obtain ⟨moved, state, after, new, hmoved, hact, hnext⟩ :=
    AuthorizationHandler.step_act_eq_some_iff.mp hstep
  rw [hnext, System.advance, List.length_set]

/-! ## Connections and calls -/

namespace Service

/-- Where the worker of the connection can be. -/
def Fits (self : Service) (phase : WorkerPhase) : Prop :=
  match self with
  | .pending => phase = .spawned ∨ phase = .serving
  | .handling _ _ _ => phase = .serving
  | .ended _ _ _ => phase ≠ .spawned
  | .raised => phase ≠ .spawned

/-- The call is the one which is made for this request and this peer. -/
def MadeFor (agent : AgentState) (arrival : Arrival) (call : ℕ)
    (current : Call) : Prop :=
  agent.sessions[call]? = some current ∧ current.peer = arrival.peer ∧
    current.request = arrival.request.payload.body

/-- What the service has come to follows from what it met and from what its
own call has returned. -/
def FollowsCall (codec : ProtocolCodec) (agent : AgentState) :
    Service → Prop
  | .pending => True
  | .raised => True
  | .handling reception arrival call =>
      receive codec reception = .inr arrival ∧
        ∃ current, MadeFor agent arrival call current
  | .ended reception none served => receive codec reception = .inl served
  | .ended reception (some call) served =>
      ∃ arrival current completion,
        receive codec reception = .inr arrival ∧
          MadeFor agent arrival call current ∧
          current.returned? = some completion ∧
          served = arrival.conclude codec completion

variable {codec : ProtocolCodec} {before after : AgentState}

theorem MadeFor.persist {arrival : Arrival} {call : ℕ} {current : Call}
    (hpersist : CallsPersist before after)
    (hmade : MadeFor before arrival call current) :
    ∃ later, MadeFor after arrival call later ∧
      ∀ completion, current.returned? = some completion →
        later.returned? = some completion := by
  obtain ⟨hcurrent, hpeer, hrequest⟩ := hmade
  obtain ⟨later, hlater, hsamePeer, hsameRequest, hreturned⟩ :=
    hpersist call current hcurrent
  exact ⟨later,
    ⟨hlater, hsamePeer.trans hpeer, hsameRequest.trans hrequest⟩, hreturned⟩

theorem FollowsCall.persist {service : Service}
    (hpersist : CallsPersist before after)
    (hfollows : service.FollowsCall codec before) :
    service.FollowsCall codec after := by
  cases service with
  | pending => trivial
  | raised => trivial
  | handling reception arrival call =>
      obtain ⟨hreceive, current, hmade⟩ := hfollows
      obtain ⟨later, hlater, -⟩ := hmade.persist hpersist
      exact ⟨hreceive, later, hlater⟩
  | ended reception call served =>
      cases call with
      | none => exact hfollows
      | some call =>
          obtain ⟨arrival, current, completion, hreceive, hmade, hreturned,
            hserved⟩ := hfollows
          obtain ⟨later, hlater, hlaterReturned⟩ := hmade.persist hpersist
          exact ⟨arrival, later, completion, hreceive, hlater,
            hlaterReturned completion hreturned, hserved⟩

end Service

/-- Workers and services go together, every service follows from its own call,
and the calls are those which the services have made, each by one. -/
structure Coherent (codec : ProtocolCodec) (daemon : Daemon) : Prop where
  length : daemon.services.length = daemon.server.workers.length
  fits : ∀ (i : ℕ) service worker, daemon.services[i]? = some service →
    daemon.server.workers[i]? = some worker → service.Fits worker.phase
  follows : ∀ (i : ℕ) service, daemon.services[i]? = some service →
    service.FollowsCall codec daemon.agent
  calls : (daemon.services.filterMap Service.call?).Perm
    (List.range daemon.agent.sessions.length)

namespace Daemon

variable {daemon : Daemon} {index : ℕ}

theorem isServing_iff : daemon.isServing index = true ↔
    ∃ worker, daemon.server.workers[index]? = some worker ∧
      worker.phase = .serving := by
  simp [isServing, Option.map_eq_some_iff]

theorem phase_of_isServing {worker : Worker}
    (hserving : daemon.isServing index = true)
    (hworker : daemon.server.workers[index]? = some worker) :
    worker.phase = .serving := by
  obtain ⟨other, hother, hphase⟩ := isServing_iff.mp hserving
  rw [hworker, Option.some.injEq] at hother
  exact hother ▸ hphase

theorem getElem?_setService {i : ℕ} {old new service : Service}
    (hold : daemon.services[index]? = some old)
    (hservice : (daemon.setService index new).services[i]? = some service) :
    i = index ∧ service = new ∨
      i ≠ index ∧ daemon.services[i]? = some service := by
  have hlt := (List.getElem?_eq_some_iff.mp hold).1
  rw [setService, List.getElem?_set] at hservice
  by_cases heq : index = i
  · rw [if_pos heq, if_pos hlt, Option.some.injEq] at hservice
    exact .inl ⟨heq.symm, hservice.symm⟩
  · rw [if_neg heq] at hservice
    exact .inr ⟨Ne.symm heq, hservice⟩

end Daemon

namespace Coherent

variable {codec : ProtocolCodec} {daemon : Daemon}

theorem initial (self : AgentServer) : Coherent codec self.initial where
  length := rfl
  fits _ _ _ hservice := nomatch hservice
  follows _ _ hservice := nomatch hservice
  calls := List.Perm.refl _

/-- One service is replaced, and with it the calls may become one more. -/
theorem replace (hcoherent : Coherent codec daemon) {index : ℕ}
    {old new : Service} {agent : AgentState}
    (hold : daemon.services[index]? = some old)
    (hpersist : CallsPersist daemon.agent agent)
    (hfits : ∀ worker, daemon.server.workers[index]? = some worker →
      new.Fits worker.phase)
    (hfollows : new.FollowsCall codec agent)
    (hcalls : ((daemon.services.set index new).filterMap Service.call?).Perm
      (List.range agent.sessions.length)) :
    Coherent codec { daemon.setService index new with agent := agent } where
  length := by
    simp only [Daemon.setService, List.length_set]
    exact hcoherent.length
  fits i service worker hservice hworker := by
    rcases Daemon.getElem?_setService hold hservice with
      ⟨rfl, rfl⟩ | ⟨-, hother⟩
    · exact hfits worker hworker
    · exact hcoherent.fits i service worker hother hworker
  follows i service hservice := by
    rcases Daemon.getElem?_setService hold hservice with
      ⟨rfl, rfl⟩ | ⟨-, hother⟩
    · exact hfollows
    · exact (hcoherent.follows i service hother).persist hpersist
  calls := hcalls

/-- One service is replaced by another with the same call, or none. -/
theorem replaceSame (hcoherent : Coherent codec daemon) {index : ℕ}
    {old new : Service} (hold : daemon.services[index]? = some old)
    (hfits : ∀ worker, daemon.server.workers[index]? = some worker →
      new.Fits worker.phase)
    (hfollows : new.FollowsCall codec daemon.agent)
    (hcall : new.call? = old.call?) :
    Coherent codec (daemon.setService index new) := by
  have hkept : CallsPersist daemon.agent daemon.agent :=
    fun _ current hcurrent =>
      ⟨current, hcurrent, rfl, rfl, fun _ hreturned => hreturned⟩
  apply hcoherent.replace hold hkept hfits hfollows
  rw [IndexedList.filterMap_set hold hcall]
  exact hcoherent.calls

theorem arrive (hcoherent : Coherent codec daemon) {index : ℕ}
    {reception : Reception} {arrival : Arrival}
    (hserving : daemon.isServing index = true)
    (hpending : daemon.services[index]? = some .pending)
    (hreceive : receive codec reception = .inr arrival) :
    Coherent codec
      { daemon.setService index
          (.handling reception arrival daemon.agent.sessions.length)
        with agent := daemon.agent.enroll arrival.call } := by
  apply hcoherent.replace hpending (callsPersist_enroll _ _)
  · intro worker hworker
    exact Daemon.phase_of_isServing hserving hworker
  · exact ⟨hreceive, arrival.call,
      System.getElem?_enroll_eq_some_iff.mpr (.inl ⟨rfl, rfl⟩), rfl, rfl⟩
  · have hperm : ((daemon.services.set index (.handling reception arrival
        daemon.agent.sessions.length)).filterMap Service.call?).Perm
          (daemon.agent.sessions.length ::
            daemon.services.filterMap Service.call?) :=
      IndexedList.filterMap_set_perm hpending rfl rfl
    have hlength : (daemon.agent.enroll arrival.call).sessions.length =
        daemon.agent.sessions.length + 1 := by
      simp [System.enroll]
    rw [hlength, List.range_succ]
    exact (hperm.trans (hcoherent.calls.cons _)).trans
      (List.perm_append_singleton _ _).symm

theorem handle (hcoherent : Coherent codec daemon)
    {handler : AuthorizationHandler} {call : ℕ} {action : CallAction}
    {agent : AgentState}
    (hstep : handler.step daemon.agent (.act call action) = some agent) :
    Coherent codec { daemon with agent := agent } where
  length := hcoherent.length
  fits := hcoherent.fits
  follows i service hservice :=
    (hcoherent.follows i service hservice).persist (callsPersist_act hstep)
  calls := by
    rw [length_sessions_act hstep]
    exact hcoherent.calls

theorem reply (hcoherent : Coherent codec daemon) {index call : ℕ}
    {reception : Reception} {arrival : Arrival} {current : Call}
    {completion : Completion AgentResponse}
    (hhandling : daemon.services[index]? =
      some (.handling reception arrival call))
    (hcall : daemon.agent.sessions[call]? = some current)
    (hreturned : current.returned? = some completion) :
    Coherent codec (daemon.setService index
      (.ended reception (some call)
        (arrival.conclude codec completion))) := by
  apply hcoherent.replaceSame hhandling
  · intro worker hworker
    have hfits := hcoherent.fits index _ worker hhandling hworker
    change worker.phase ≠ .spawned
    rw [hfits]
    exact nofun
  · obtain ⟨hreceive, made, hmade⟩ := hcoherent.follows index _ hhandling
    have hsame : made = current := by
      have hfound := hmade.1
      rw [hcall, Option.some.injEq] at hfound
      exact hfound.symm
    exact ⟨arrival, current, completion, hreceive, hsame ▸ hmade, hreturned,
      rfl⟩
  · rfl

end Coherent

/-! ## The threads move on -/

/-- Where a worker of the next state comes from. -/
theorem worker_of_step {config : ServerConfig} {server next : Server}
    {action : ServerAction}
    (hstep : server.step config action = some next) :
    (∃ connection, action = .acceptor (.spawn true) ∧
      next.workers = server.workers ++ [⟨connection, .spawned⟩]) ∨
    (∃ index moved worker phase active, action = .worker index moved ∧
      server.workers[index]? = some worker ∧
      worker.phase.act server.active moved = some (phase, active) ∧
      next.workers =
        server.workers.set index { worker with phase := phase }) ∨
    (action.newServices = [] ∧ next.workers = server.workers) := by
  cases transition_of_step hstep with
  | spawnWorker hphase => exact .inl ⟨_, rfl, rfl⟩
  | worker hworker hact =>
      exact .inr (.inl ⟨_, _, _, _, _, rfl, hworker, hact, rfl⟩)
  | _ => exact .inr (.inr ⟨rfl, rfl⟩)

theorem Service.fits_act {service : Service} {phase next : WorkerPhase}
    {active after : UInt64} {action : WorkerAction}
    (hfits : service.Fits phase)
    (hact : phase.act active action = some (next, after))
    (hended : ∀ panicked, action = .serve panicked →
      service.panicked? = some panicked) :
    service.Fits next := by
  unfold WorkerPhase.act at hact
  split at hact
  next =>
    cases hact
    cases service with
    | pending => exact .inr rfl
    | handling reception arrival call => contradiction
    | ended reception call served => exact (hfits rfl).elim
    | raised => exact (hfits rfl).elim
  next panicked =>
    cases hact
    have hpanicked := hended panicked rfl
    cases service with
    | pending => contradiction
    | handling reception arrival call => contradiction
    | ended reception call served => exact nofun
    | raised => exact nofun
  next =>
    cases hact
    cases service with
    | pending => rcases hfits with hfits | hfits <;> contradiction
    | handling reception arrival call => contradiction
    | ended reception call served => exact nofun
    | raised => exact nofun
  next =>
    cases hact
    cases service with
    | pending => rcases hfits with hfits | hfits <;> contradiction
    | handling reception arrival call => contradiction
    | ended reception call served => exact nofun
    | raised => exact nofun
  next => contradiction

namespace Coherent

variable {codec : ProtocolCodec} {daemon : Daemon}

theorem spawn (hcoherent : Coherent codec daemon) {server : Server}
    {connection : ℕ}
    (hworkers : server.workers =
      daemon.server.workers ++ [⟨connection, .spawned⟩]) :
    Coherent codec
      { daemon with
        server := server
        services := daemon.services ++ [.pending] } where
  length := by
    simp only [hworkers, List.length_append, hcoherent.length,
      List.length_singleton]
  fits i service worker hservice hworker := by
    simp only [hworkers, List.getElem?_append, hcoherent.length]
      at hservice hworker
    split at hservice
    next hlt =>
      rw [if_pos hlt] at hworker
      exact hcoherent.fits i service worker hservice hworker
    next hge =>
      rw [if_neg hge] at hworker
      rw [List.getElem?_singleton] at hservice hworker
      split at hservice
      next hzero =>
        rw [if_pos hzero] at hworker
        cases hservice
        cases hworker
        exact .inl rfl
      next => contradiction
  follows i service hservice := by
    simp only [List.getElem?_append] at hservice
    split at hservice
    next => exact hcoherent.follows i service hservice
    next =>
      rw [List.getElem?_singleton] at hservice
      split at hservice
      next =>
        cases hservice
        trivial
      next => contradiction
  calls := by
    rw [List.filterMap_append, List.filterMap_cons_none rfl,
      List.filterMap_nil, List.append_nil]
    exact hcoherent.calls

theorem worker (hcoherent : Coherent codec daemon) {server : Server}
    {index : ℕ} {moved : WorkerAction} {worker : Worker}
    {phase : WorkerPhase} {active : UInt64}
    (hworker : daemon.server.workers[index]? = some worker)
    (hact : worker.phase.act daemon.server.active moved =
      some (phase, active))
    (hworkers : server.workers =
      daemon.server.workers.set index { worker with phase := phase })
    (hadmits : daemon.admits (.worker index moved) = true) :
    Coherent codec { daemon with server := server } where
  length := by
    simp only [hworkers, List.length_set]
    exact hcoherent.length
  fits i service other hservice hother := by
    have hlt := (List.getElem?_eq_some_iff.mp hworker).1
    simp only [hworkers, List.getElem?_set] at hother
    by_cases heq : index = i
    · rw [if_pos heq, if_pos hlt, Option.some.injEq] at hother
      subst heq
      rw [← hother]
      have hbefore : service.Fits worker.phase :=
        hcoherent.fits index service worker hservice hworker
      apply Service.fits_act hbefore hact
      intro panicked hserve
      subst hserve
      rw [Daemon.admits, hservice, Option.bind_some] at hadmits
      exact of_decide_eq_true hadmits
    · rw [if_neg heq] at hother
      exact hcoherent.fits i service other hservice hother
  follows := hcoherent.follows
  calls := hcoherent.calls

theorem server (hcoherent : Coherent codec daemon) {config : ServerConfig}
    {action : ServerAction} {server : Server}
    (hadmits : daemon.admits action = true)
    (hstep : daemon.server.step config action = some server) :
    Coherent codec
      { daemon with
        server := server
        services := daemon.services ++ action.newServices } := by
  rcases worker_of_step hstep with ⟨connection, rfl, hworkers⟩ |
    ⟨index, moved, worker, phase, active, rfl, hworker, hact, hworkers⟩ |
    ⟨hnone, hworkers⟩
  · exact hcoherent.spawn hworkers
  · have hnone : (ServerAction.worker index moved).newServices = [] := rfl
    rw [hnone, List.append_nil]
    exact hcoherent.worker hworker hact hworkers hadmits
  · rw [hnone, List.append_nil]
    refine ⟨?_, ?_, hcoherent.follows, hcoherent.calls⟩
    · rw [hworkers]
      exact hcoherent.length
    · rw [hworkers]
      exact hcoherent.fits

theorem transition {self : AgentServer} {next : Daemon}
    {action : DaemonAction} (hcoherent : Coherent self.codec daemon)
    (htransition : DaemonTransition self daemon action next) :
    Coherent self.codec next := by
  cases htransition with
  | server hadmits hstep => exact hcoherent.server hadmits hstep
  | raise hserving hpending =>
      refine hcoherent.replaceSame hpending ?_ trivial rfl
      intro worker hworker hspawned
      rw [Daemon.phase_of_isServing hserving hworker] at hspawned
      contradiction
  | refuse hserving hpending hreceive =>
      refine hcoherent.replaceSame hpending ?_ hreceive rfl
      intro worker hworker hspawned
      rw [Daemon.phase_of_isServing hserving hworker] at hspawned
      contradiction
  | arrive hserving hpending hreceive =>
      exact hcoherent.arrive hserving hpending hreceive
  | handle hhandling hstep => exact hcoherent.handle hstep
  | reply hhandling hcall hreturned =>
      exact hcoherent.reply hhandling hcall hreturned

end Coherent

/-! ## Whole runs -/

namespace AgentServer.Runs

variable {self : AgentServer} {actions : List DaemonAction} {daemon : Daemon}

theorem coherent (hruns : self.Runs actions daemon) :
    Coherent self.codec daemon := by
  apply execute_guarded_invariant (fun _ _ => True) (Coherent self.codec)
    _ (Coherent.initial self) (guarded_of_forall fun _ _ _ => trivial) hruns
  intro state action next hstate _ hstep
  exact hstate.transition (transition_of_step hstep)

theorem agent (hruns : self.Runs actions daemon) :
    self.handler.Runs
      (self.agentRefinement.traces self.initial actions) daemon.agent :=
  self.agentRefinement.execute_traces hruns

theorem server (hruns : self.Runs actions daemon) :
    execute (Server.step self.config) Server.initial
        (self.serverRefinement.traces self.initial actions) =
      some daemon.server :=
  self.serverRefinement.execute_traces hruns

end AgentServer.Runs

end Eltanin.Agent
