import Eltanin.LaunchTrace
import Eltanin.LeaseHolding

/-!
# The leases of a launch

The trace of a launch shows a grant for each reply which has granted a lease it
was waiting for, and for nothing else.  So what is owed for the grants of a
trace is owed for every lease which the agent has granted.
-/

namespace Eltanin.Cli

open Eltanin.Core Protocol LabelledRun PartialExecution

/-! ## One step -/

theorem grants_eq_nil_of_quiet {events : List LaunchEvent}
    (hquiet : ∀ event ∈ events, event.Quiet) : grants events = [] := by
  rw [grants, List.filterMap_eq_nil_iff]
  intro event hevent
  have hnone := (hquiet event hevent).grants_eq_nil
  cases event <;> first | rfl | contradiction

/-- The grant in an answer to a request which was made at a reading. -/
def grantIn (attemptedAt : Option Instant) : LaunchAnswer → List Grant
  | .replied (.ok (.leaseGranted lease)) =>
      attemptedAt.toList.map fun observedAt => ⟨lease, observedAt⟩
  | _ => []

theorem grantIn_none (answer : LaunchAnswer) : grantIn none answer = [] := by
  unfold grantIn
  split <;> rfl

namespace Supervision

theorem grants_checked (child : ChildPid) (renewal : Renewal)
    (now : Instant) : grants (checked child renewal now).2 = [] := by
  unfold checked
  split
  · rfl
  · split <;> rfl

theorem grants_renewed (renewal : Renewal) (attemptedAt : Instant)
    (reply : Except ClientError AgentResponse) :
    grants (renewed renewal attemptedAt reply).2 =
      grantIn (some attemptedAt) (.replied reply) := by
  cases reply with
  | error error =>
      simp only [renewed]
      split <;> rfl
  | ok response =>
      cases response with
      | leaseGranted lease => rfl
      | _ =>
          simp only [renewed]
          split <;> rfl

theorem grants_terminated (leaseId : LeaseId)
    (result : Termination × List TerminationEvent) :
    grants (terminated leaseId result).2 = [] := by
  obtain ⟨code, events⟩ := result
  have hevents : grants (events.map .terminating) = [] := by
    simp [grants, LaunchEvent.grant?, List.filterMap_map,
      Function.comp_def]
  cases code with
  | returned suppressed =>
      rw [terminated, grants_append, hevents]
      rfl
  | _ => exact hevents

variable {named : Int32 → Bool} {request : LeaseRequest} {child : ChildPid}
  {code next : Supervision} {answer : LaunchAnswer}
  {events : List LaunchEvent}

theorem grants_of_act
    (hact : code.act named request child answer = some (next, events)) :
    grants events = grantIn code.attemptedAt? answer := by
  unfold act at hact
  split at hact
  case h_3 renewal signals =>
    cases hact
    apply grants_eq_nil_of_quiet
    intro event hevent
    obtain ⟨signal, -, hsignal⟩ := List.mem_flatMap.mp hevent
    exact quiet_forwardToChild named child signal event hsignal
  case h_4 renewal now =>
    have hgrants := grants_checked child renewal now
    rw [Option.some.inj hact] at hgrants
    exact hgrants
  case h_6 renewal attemptedAt reply =>
    have hgrants := grants_renewed renewal attemptedAt reply
    rw [Option.some.inj hact] at hgrants
    exact hgrants
  case h_7 renewal oldLeaseId release =>
    obtain ⟨⟨reached, done⟩, hrelease, heq⟩ := Option.map_eq_some_iff.mp hact
    have hquiet := grants_eq_nil_of_quiet (Release.quiet_of_act hrelease)
    refine Eq.trans ?_ (grantIn_none answer).symm
    cases reached <;> cases heq <;> exact hquiet
  case h_9 leaseId code answer =>
    obtain ⟨result, -, heq⟩ := Option.map_eq_some_iff.mp hact
    have hgrants := grants_terminated leaseId result
    rw [heq] at hgrants
    exact hgrants
  case h_10 leaseId release outcome =>
    obtain ⟨⟨reached, done⟩, hrelease, heq⟩ := Option.map_eq_some_iff.mp hact
    have hquiet := grants_eq_nil_of_quiet (Release.quiet_of_act hrelease)
    refine Eq.trans ?_ (grantIn_none answer).symm
    cases reached <;> cases heq <;> exact hquiet
  case h_11 => contradiction
  all_goals
    cases hact
    rfl

end Supervision

namespace Launch

theorem grants_initiallyGranted (request : LeaseRequest)
    (grantObservedAt : Instant) (reply : Except ClientError AgentResponse) :
    grants (initiallyGranted request grantObservedAt
        (initialLease reply)).2 =
      grantIn (some grantObservedAt) (.replied reply) := by
  cases reply with
  | error error => rfl
  | ok response => cases response <;> rfl

variable {named : Int32 → Bool} {code next : Launch} {answer : LaunchAnswer}
  {events : List LaunchEvent}

theorem grants_of_act
    (hact : code.act named answer = some (next, events)) :
    grants events = grantIn code.attemptedAt? answer := by
  unfold act at hact
  split at hact
  case h_7 request grantObservedAt reply =>
    have hgrants := grants_initiallyGranted request grantObservedAt reply
    rw [Option.some.inj hact] at hgrants
    exact hgrants
  case h_12 request child code =>
    obtain ⟨result, hsupervision, heq⟩ := Option.map_eq_some_iff.mp hact
    have hevents := (holding_supervised request child result).2
    rw [heq] at hevents
    rw [show events = result.2 from hevents]
    exact Supervision.grants_of_act hsupervision
  case h_13 leaseId release outcome =>
    obtain ⟨⟨reached, done⟩, hrelease, heq⟩ := Option.map_eq_some_iff.mp hact
    have hquiet := grants_eq_nil_of_quiet (Release.quiet_of_act hrelease)
    refine Eq.trans ?_ (grantIn_none answer).symm
    cases reached <;> cases heq <;> exact hquiet
  case h_16 => contradiction
  all_goals
    cases hact
    rfl

/-- The launch waits for the reply to a request for a lease just when it keeps
the reading from before that request. -/
theorem asks_eq_requestLease_iff :
    (∃ request, code.asks = some (.requestLease request)) ↔
      code.attemptedAt?.isSome := by
  have hrelease : ∀ (leaseId : LeaseId) (release : Release) request,
      release.asks leaseId ≠ some (.requestLease request) := by
    intro leaseId release request
    cases release <;> simp [Release.asks]
  cases code with
  | supervising request child code =>
      cases code <;> simp [asks, attemptedAt?, Supervision.asks,
        Supervision.attemptedAt?, hrelease]
  | _ => simp [asks, attemptedAt?, hrelease]

end Launch

/-! ## What the agent has granted -/

namespace LaunchRun

/-- The lease which an answer grants, when it is the reply to a request for
one, and the last reading of the clock before it. -/
def receives (run : LaunchRun) : LaunchAnswer → List Grant
  | .replied (.ok (.leaseGranted lease)) =>
      match run.code.asks with
      | some (.requestLease _) => [⟨lease, run.clock⟩]
      | _ => []
  | _ => []

/-- The leases which the agent's replies grant in the course of an
execution. -/
def received (named : Int32 → Bool) : LaunchRun → List LaunchAnswer →
    List Grant
  | _, [] => []
  | run, answer :: rest =>
      match run.step named answer with
      | none => []
      | some next => run.receives answer ++ received named next rest

variable {named : Int32 → Bool} {run next final : LaunchRun}
  {answer : LaunchAnswer} {answers : List LaunchAnswer}

def sampleRequest : LeaseRequest where
  resource := ⟨⟨"fake"⟩, ⟨"gpu"⟩, "gpu-0"⟩
  action := .compute

def sampleLease (sequence : UInt64) : LeaseView :=
  ⟨⟨⟨"issuer"⟩, sequence⟩, .fromNanos 10000000000⟩

def sampleNow (seconds : UInt8) : LaunchAnswer :=
  .os (.now (Lapse.sampleReading seconds))

end LaunchRun

end Eltanin.Cli
