import Eltanin.ClientModel
import Eltanin.SuperviseModel

/-!
# The launch of a workload

`eltanin run` from the profile to its exit code.  The governed context comes
before the connection, the workload after the grant, and whatever has been
obtained is given back on every way out.
-/

namespace Eltanin.Cli

open Eltanin.Core Protocol

/-! ## Exit codes -/

/-- `u8::try_from`. -/
def u8TryFrom (value : Int32) : Option UInt8 :=
  if 0 ≤ value.toInt ∧ value.toInt < 256 then
    some (UInt8.ofNat value.toInt.toNat)
  else none

def workloadSignalExitCode (signal : UInt8) : UInt8 :=
  UInt8.ofNat (min (128 + signal.toNat) 255)

def statusToExitCode : ExitStatus → UInt8
  | .exited code => (u8TryFrom code).getD 255
  | .signaled signal =>
      workloadSignalExitCode ((u8TryFrom signal).getD 255)
  | .neither => ExitCode.agentError.code

def spawnFailureCode : SpawnError → UInt8
  | .notFound => 127
  | .other => 126

inductive LaunchOutcome where
  | failure (cause : LaunchFailure)
  | exit (code : UInt8)
  deriving DecidableEq

def LaunchOutcome.code : LaunchOutcome → UInt8
  | .failure cause => cause.exitCode.code
  | .exit code => code

def outcomeToExit : RunOutcome → LaunchOutcome
  | .workloadExited status => .exit (statusToExitCode status)
  | .authorizationLapsed _ => .exit ExitCode.authorizationLapsed.code

/-! ## The stages of a launch -/

/-- Where `run` is. -/
inductive Launch where
  | resolving
  | establishing (request : LeaseRequest)
  | connecting (request : LeaseRequest)
  | requesting (request : LeaseRequest)
  | awaitingGrant (request : LeaseRequest) (grantObservedAt : Instant)
  | installing (request : LeaseRequest) (lease : LeaseView)
      (grantObservedAt : Instant)
  | spawning (request : LeaseRequest) (lease : LeaseView)
      (grantObservedAt : Instant)
  | supervising (request : LeaseRequest) (child : ChildPid)
      (code : Supervision)
  | releasing (leaseId : LeaseId) (release : Release)
      (outcome : LaunchOutcome)
  | tearingDown (outcome : LaunchOutcome)
  | returned (outcome : LaunchOutcome)
  | panicked
  deriving DecidableEq

namespace Launch

def connected (request : LeaseRequest) :
    Except ClientError String → Launch
  | .ok _ => .requesting request
  | .error error => .tearingDown (.failure (.ofClientError error))

def initiallyGranted (request : LeaseRequest) (grantObservedAt : Instant) :
    Except LaunchFailure LeaseView → Launch × List LaunchEvent
  | .ok lease =>
      (.installing request lease grantObservedAt,
        [.granted lease grantObservedAt])
  | .error failure => (.tearingDown (.failure failure), [])

def supervised (request : LeaseRequest) (child : ChildPid) :
    Supervision × List LaunchEvent → Launch × List LaunchEvent
  | (.returned outcome, events) =>
      (.tearingDown (outcomeToExit outcome), events)
  | (.panicked, events) => (.panicked, events)
  | (code, events) => (.supervising request child code, events)

def released (leaseId : LeaseId) (outcome : LaunchOutcome) :
    Release × List LaunchEvent → Launch × List LaunchEvent
  | (.returned, events) => (.tearingDown outcome, events)
  | (release, events) => (.releasing leaseId release outcome, events)

def act (named : Int32 → Bool) : Launch → LaunchAnswer →
    Option (Launch × List LaunchEvent)
  | .resolving, .profile (.ok request) => some (.establishing request, [])
  | .resolving, .profile (.error detail) =>
      some (.returned (.failure (.profileUnresolved detail)), [])
  | .establishing request, .context (.ok ()) =>
      some (.connecting request, [.established])
  | .establishing _, .context (.error reason) =>
      some (.returned (.failure (.governedContextFailed reason)), [])
  | .connecting request, .environment socketPath =>
      some (connected request (fromEnv socketPath), [])
  | .requesting request, .os (.now grantObservedAt) =>
      some (.awaitingGrant request grantObservedAt,
        [.requested request grantObservedAt])
  | .awaitingGrant request grantObservedAt, .replied reply =>
      some (initiallyGranted request grantObservedAt (initialLease reply))
  | .installing request lease grantObservedAt, .installed (.ok ()) =>
      some (.spawning request lease grantObservedAt, [])
  | .installing _ lease _, .installed (.error reason) =>
      some (.releasing lease.leaseId .start
        (.failure (.agentUnavailable
          ("failed to install signal handlers: " ++ reason))),
        [.releasing lease.leaseId])
  | .spawning request lease grantObservedAt, .spawned (.ok child) =>
      some (.supervising request child (.start lease grantObservedAt),
        [.spawned child])
  | .spawning _ lease _, .spawned (.error error) =>
      some (.releasing lease.leaseId .start (.exit (spawnFailureCode error)),
        [.releasing lease.leaseId])
  | .supervising request child code, answer =>
      (code.act named request child answer).map (supervised request child)
  | .releasing leaseId release outcome, answer =>
      (release.act leaseId answer).map (released leaseId outcome)
  | .tearingDown outcome, .context (.ok ()) =>
      some (.returned outcome, [.tornDown])
  | .tearingDown outcome, .context (.error reason) =>
      some (.returned outcome, [.tornDown, .teardownWarned reason])
  | _, _ => none

end Launch

/-! ## Runs -/

/-- A launch on its way: the last reading of the clock and everything which has
been done. -/
structure LaunchRun where
  code : Launch
  clock : Instant
  trace : List LaunchEvent

namespace LaunchRun

def called (clock : Instant) : LaunchRun := ⟨.resolving, clock, []⟩

/-- The readings of the clock do not decrease. -/
def observed (clock : Instant) : LaunchAnswer → Option Instant
  | .os (.now reading) => if clock ≤ reading then some reading else none
  | _ => some clock

def step (named : Int32 → Bool) (run : LaunchRun) (answer : LaunchAnswer) :
    Option LaunchRun :=
  match observed run.clock answer, run.code.act named answer with
  | some clock, some (code, events) =>
      some ⟨code, clock, run.trace ++ events⟩
  | _, _ => none

theorem step_cases {named : Int32 → Bool} {run next : LaunchRun}
    {answer : LaunchAnswer} (hstep : run.step named answer = some next) :
    ∃ events, run.code.act named answer = some (next.code, events) ∧
      next.trace = run.trace ++ events := by
  unfold step at hstep
  split at hstep
  next clock code events _ hact =>
    cases hstep
    exact ⟨events, hact, rfl⟩
  next => contradiction

end LaunchRun

end Eltanin.Cli
