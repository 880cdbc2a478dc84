import Eltanin.AuthorizationGrant
import Eltanin.LaunchModel

/-!
# A launch and its agent on one host

The client and the agent read one monotonic clock.  The client keeps its
readings as instants, the agent as the time since it was started.  A timeline
is the state of both at one instant; between any two actions of either party
any time may pass.  A request which the client has sent becomes a call of the
agent some time later, or never, and the client is answered by that call alone
or by an error of the connection.
-/

namespace Eltanin.Agent

open Eltanin.Core Protocol

/-- `AgentClock`; `base` is when the agent was started. -/
structure AgentClock where
  base : Cli.Instant
  deriving DecidableEq

namespace AgentClock

/-- `AgentClock::now` at an instant.  `elapsed` does not go below zero, and
what does not fit into a `u64` of nanoseconds is read as its maximum. -/
def now (self : AgentClock) (instant : Cli.Instant) : MonotonicTime :=
  if instant.asNanos - self.base.asNanos < UInt64.size then
    ⟨UInt64.ofNat (instant.asNanos - self.base.asNanos)⟩
  else ⟨UInt64.ofNat (UInt64.size - 1)⟩

/-- When this clock shows `time`, in nanoseconds of the timeline. -/
def shows (self : AgentClock) (time : MonotonicTime) : ℕ :=
  self.base.asNanos + time.nanos.toNat

end AgentClock

/-- The reading of the clock which an action takes. -/
def CallAction.reading? : CallAction → Option MonotonicTime
  | .issue now => some now
  | .readClock now => some now
  | .release now _ => some now
  | _ => none

end Eltanin.Agent

namespace Eltanin.Cli

open Eltanin.Core Agent Protocol InterleavedSessions

/-! ## What a launch waits for and what it holds -/

def Release.asks (leaseId : LeaseId) : Release → Option ClientRequest
  | .sending _ => some (.releaseLease ⟨leaseId⟩)
  | _ => none

namespace Supervision

/-- The request whose reply is awaited. -/
def asks (request : LeaseRequest) : Supervision → Option ClientRequest
  | .renewing _ _ => some (.requestLease request)
  | .replacing _ oldLeaseId release => release.asks oldLeaseId
  | .releasing leaseId release _ => release.asks leaseId
  | _ => none

def attemptedAt? : Supervision → Option Instant
  | .renewing _ attemptedAt => some attemptedAt
  | _ => none

/-- The lease under which the workload runs. -/
def renewal? : Supervision → Option Renewal
  | .polling renewal => some renewal
  | .draining renewal => some renewal
  | .checking renewal => some renewal
  | .attempting renewal => some renewal
  | .renewing renewal _ => some renewal
  | .replacing renewal _ _ => some renewal
  | .sleeping renewal => some renewal
  | _ => none

end Supervision

namespace Launch

def asks : Launch → Option ClientRequest
  | .awaitingGrant request _ => some (.requestLease request)
  | .supervising request _ code => code.asks request
  | .releasing leaseId release _ => release.asks leaseId
  | _ => none

/-- The reading of the clock before a request for a lease which has not been
answered. -/
def attemptedAt? : Launch → Option Instant
  | .awaitingGrant _ grantObservedAt => some grantObservedAt
  | .supervising _ _ code => code.attemptedAt?
  | _ => none

/-- The lease which is supervised, or which `supervise` is going to be called
with. -/
def renewal? : Launch → Option Renewal
  | .installing _ lease grantObservedAt => some (.adopt lease grantObservedAt)
  | .spawning _ lease grantObservedAt => some (.adopt lease grantObservedAt)
  | .supervising _ _ code => code.renewal?
  | _ => none

end Launch

/-! ## The timeline -/

/-- `serving` is the call which has the request the client waits for. -/
structure Timeline where
  now : Instant
  agent : AgentState
  client : LaunchRun
  serving : Option ℕ

inductive TimelineAction where
  | elapse (later : Instant)
  | agent (action : AgentAction)
  | arrive (peer : PeerContext)
  | client (answer : LaunchAnswer)

namespace Timeline

def starting (handler : AuthorizationHandler) (start : Instant) : Timeline :=
  ⟨start, handler.initial, .called start, none⟩

def response? (self : Timeline) : Option AgentResponse :=
  match self.serving with
  | none => none
  | some i => self.agent.sessions[i]?.bind Call.response?

/-- The agent reads its own clock. -/
def AdmitsCall (self : Timeline) (clock : AgentClock) : AgentAction → Prop
  | .start _ => True
  | .act _ action =>
      ∀ reading ∈ action.reading?, reading = clock.now self.now

/-- The client reads the timeline, and a reply comes from the call which has
the request. -/
def AdmitsAnswer (self : Timeline) : LaunchAnswer → Prop
  | .os (.now reading) => reading = self.now
  | .replied (.ok response) => self.response? = some response
  | _ => True

instance (self : Timeline) (clock : AgentClock) (action : AgentAction) :
    Decidable (self.AdmitsCall clock action) :=
  match action with
  | .start _ => .isTrue trivial
  | .act _ action => inferInstanceAs
      (Decidable (∀ reading ∈ action.reading?, reading = clock.now self.now))

instance (self : Timeline) (answer : LaunchAnswer) :
    Decidable (self.AdmitsAnswer answer) :=
  match answer with
  | .os (.now reading) => inferInstanceAs (Decidable (reading = self.now))
  | .replied (.ok response) =>
      inferInstanceAs (Decidable (self.response? = some response))
  | .os (.waited _) | .os .sent | .os .slept | .replied (.error _)
  | .profile _ | .context _ | .environment _ | .installed _ | .spawned _
  | .drained _ => .isTrue trivial

/-- A reply of any kind ends the exchange. -/
def servingAfter (self : Timeline) : LaunchAnswer → Option ℕ
  | .replied _ => none
  | _ => self.serving

def step (handler : AuthorizationHandler) (clock : AgentClock)
    (named : Int32 → Bool) (self : Timeline) :
    TimelineAction → Option Timeline
  | .elapse later =>
      if self.now ≤ later then some { self with now := later } else none
  | .agent action =>
      if self.AdmitsCall clock action then
        (handler.step self.agent action).map fun agent =>
          { self with agent }
      else none
  | .arrive peer =>
      match self.client.code.asks, self.serving with
      | some request, none =>
          (handler.step self.agent (.start (peer, request))).map fun agent =>
            { self with agent, serving := some self.agent.sessions.length }
      | _, _ => none
  | .client answer =>
      if self.AdmitsAnswer answer then
        (self.client.step named answer).map fun client =>
          { self with client, serving := self.servingAfter answer }
      else none

end Timeline

end Eltanin.Cli
