import Eltanin.FailureModel
import Eltanin.TerminationModel

/-!
# Supervising a workload

The poll loop of `supervise` watches the child, forwards signals, renews the
lease at about half of its time and terminates the workload once the deadline
of its lease has passed.  A lease is released with bounded retry.  What the
agent, the channel of signals and the operating system answer is an argument
of the step, and what the loop does is recorded in events.
-/

namespace Eltanin.Core

/-- `Ord::min`. -/
def Duration.min (self other : Duration) : Duration :=
  if self.asNanos ≤ other.asNanos then self else other

/-- `self / 2`. -/
def Duration.half (self : Duration) : Duration where
  asNanos := self.asNanos / 2
  inRange := lt_of_le_of_lt (Nat.div_le_self _ _) self.inRange

end Eltanin.Core

namespace Eltanin.Cli

open Eltanin.Core Protocol

/-! ## What a launch asks and does -/

inductive SpawnError where
  | notFound
  | other
  deriving DecidableEq, Repr

/-- What a stage of a launch is answered. -/
inductive LaunchAnswer where
  | profile (loaded : Except String LeaseRequest)
  | context (result : Except String Unit)
  | environment (socketPath : Option (Option String))
  | replied (reply : Except ClientError AgentResponse)
  | installed (result : Except String Unit)
  | spawned (child : Except SpawnError ChildPid)
  | drained (signals : List Int32)
  | os (answer : OsAnswer)

inductive LaunchEvent where
  | established
  | requested (request : LeaseRequest) (attemptedAt : Instant)
  | granted (lease : LeaseView) (observedAt : Instant)
  | spawned (child : ChildPid)
  | forwarded (signal : Int32)
  | dropped (signal : Int32)
  | exited (status : ExitStatus)
  | lapsed (now : Instant)
  | terminating (event : TerminationEvent)
  | releasing (leaseId : LeaseId)
  | releaseSent (leaseId : LeaseId) (reply : Except ClientError AgentResponse)
  | releaseWarned (leaseId : LeaseId)
  | tornDown
  | teardownWarned (reason : String)
  deriving DecidableEq

/-! ## Releasing a lease -/

def releaseRetryBackoffs : List Duration :=
  [⟨100000000, by decide⟩, ⟨200000000, by decide⟩]

def releaseAttempts : ℕ := 1 + releaseRetryBackoffs.length

/-- Where `release` is. -/
inductive Release where
  | sending (attempt : ℕ)
  | backingOff (attempt : ℕ)
  | returned
  deriving DecidableEq, Repr

namespace Release

def start : Release := .sending 0

/-- The next round of the loop, or the warning after the last. -/
def next (leaseId : LeaseId) (attempt : ℕ) : Release × List LaunchEvent :=
  if attempt + 1 < releaseAttempts then (.sending (attempt + 1), [])
  else (.returned, [.releaseWarned leaseId])

/-- A reply that the lease was released ends the loop, whatever its outcome. -/
def answered (leaseId : LeaseId) (attempt : ℕ) :
    Except ClientError AgentResponse → Release × List LaunchEvent
  | .ok (.leaseReleased _) => (.returned, [])
  | _ =>
      match releaseRetryBackoffs[attempt]? with
      | some _ => (.backingOff attempt, [])
      | none => next leaseId attempt

def act (leaseId : LeaseId) : Release → LaunchAnswer →
    Option (Release × List LaunchEvent)
  | .sending attempt, .replied reply =>
      some ((answered leaseId attempt reply).1,
        .releaseSent leaseId reply :: (answered leaseId attempt reply).2)
  | .backingOff attempt, .os .slept => some (next leaseId attempt)
  | _, _ => none

end Release

/-! ## The poll loop -/

def minRenewalRetryInterval : Duration := ⟨500000000, by decide⟩

def renewalRetryBackoff : Duration := ⟨1000000000, by decide⟩

/-- A year, in hours of nanoseconds. -/
def maxLeaseRemaining : Duration :=
  ⟨365 * 24 * 3600000000000, by decide⟩

def safeDeadline (base : Instant) (remaining : Duration) : Instant :=
  (base.checkedAdd (remaining.min maxLeaseRemaining)).getD base

def nextRenewalRetry (attemptedAt deadline : Instant) : Completion Instant :=
  match attemptedAt.add renewalRetryBackoff with
  | .panicked => .panicked
  | .returned backedOff =>
      match attemptedAt.add minRenewalRetryInterval with
      | .panicked => .panicked
      | .returned floored =>
          .returned ((backedOff.max floored).min deadline)

inductive RunOutcome where
  | workloadExited (status : ExitStatus)
  | authorizationLapsed (suppressed : Option ExitStatus)
  deriving DecidableEq

structure Renewal where
  leaseId : LeaseId
  deadline : Instant
  renewAt : Instant
  deriving DecidableEq

def Renewal.adopt (lease : LeaseView) (attemptedAt : Instant) : Renewal where
  leaseId := lease.leaseId
  deadline := safeDeadline attemptedAt lease.remaining
  renewAt := safeDeadline attemptedAt lease.remaining.half

/-- A signal goes to the direct child alone, and only when it has a name. -/
def forwardToChild (named : Int32 → Bool) (child : ChildPid)
    (signal : Int32) : List LaunchEvent :=
  match pidFromU32 child.id with
  | none => []
  | some _ => if named signal then [.forwarded signal] else [.dropped signal]

/-- Where `supervise` is. -/
inductive Supervision where
  | polling (renewal : Renewal)
  | draining (renewal : Renewal)
  | checking (renewal : Renewal)
  | attempting (renewal : Renewal)
  | renewing (renewal : Renewal) (attemptedAt : Instant)
  | replacing (renewal : Renewal) (oldLeaseId : LeaseId) (release : Release)
  | sleeping (renewal : Renewal)
  | terminating (leaseId : LeaseId) (code : Termination)
  | releasing (leaseId : LeaseId) (release : Release) (outcome : RunOutcome)
  | returned (outcome : RunOutcome)
  | panicked
  deriving DecidableEq

namespace Supervision

def start (lease : LeaseView) (grantObservedAt : Instant) : Supervision :=
  .polling (.adopt lease grantObservedAt)

def checked (child : ChildPid) (renewal : Renewal) (now : Instant) :
    Supervision × List LaunchEvent :=
  if renewal.deadline ≤ now then
    (.terminating renewal.leaseId (.start child), [.lapsed now])
  else if renewal.renewAt ≤ now then (.attempting renewal, [])
  else (.sleeping renewal, [])

/-- The reply to a renewal: a grant is adopted before the old lease is
released, and anything else is tried again later. -/
def renewed (renewal : Renewal) (attemptedAt : Instant) :
    Except ClientError AgentResponse → Supervision × List LaunchEvent
  | .ok (.leaseGranted lease) =>
      (.replacing (.adopt lease attemptedAt) renewal.leaseId .start,
        [.granted lease attemptedAt, .releasing renewal.leaseId])
  | _ =>
      match nextRenewalRetry attemptedAt renewal.deadline with
      | .returned renewAt => (.sleeping { renewal with renewAt }, [])
      | .panicked => (.panicked, [])

def replaced (renewal : Renewal) (oldLeaseId : LeaseId) :
    Release × List LaunchEvent → Supervision × List LaunchEvent
  | (.returned, events) => (.sleeping renewal, events)
  | (release, events) => (.replacing renewal oldLeaseId release, events)

def terminated (leaseId : LeaseId) :
    Termination × List TerminationEvent → Supervision × List LaunchEvent
  | (.returned suppressed, events) =>
      (.releasing leaseId .start (.authorizationLapsed suppressed),
        events.map .terminating ++ [.releasing leaseId])
  | (.panicked, events) => (.panicked, events.map .terminating)
  | (code, events) => (.terminating leaseId code, events.map .terminating)

def released (leaseId : LeaseId) (outcome : RunOutcome) :
    Release × List LaunchEvent → Supervision × List LaunchEvent
  | (.returned, events) => (.returned outcome, events)
  | (release, events) => (.releasing leaseId release outcome, events)

def act (named : Int32 → Bool) (request : LeaseRequest) (child : ChildPid) :
    Supervision → LaunchAnswer → Option (Supervision × List LaunchEvent)
  | .polling renewal, .os (.waited (some status)) =>
      some (.releasing renewal.leaseId .start (.workloadExited status),
        [.exited status, .releasing renewal.leaseId])
  | .polling renewal, .os (.waited none) => some (.draining renewal, [])
  | .draining renewal, .drained signals =>
      some (.checking renewal, signals.flatMap (forwardToChild named child))
  | .checking renewal, .os (.now now) => some (checked child renewal now)
  | .attempting renewal, .os (.now attemptedAt) =>
      some (.renewing renewal attemptedAt, [.requested request attemptedAt])
  | .renewing renewal attemptedAt, .replied reply =>
      some (renewed renewal attemptedAt reply)
  | .replacing renewal oldLeaseId release, answer =>
      (release.act oldLeaseId answer).map (replaced renewal oldLeaseId)
  | .sleeping renewal, .os .slept => some (.polling renewal, [])
  | .terminating leaseId code, .os answer =>
      (code.act answer).map (terminated leaseId)
  | .releasing leaseId release outcome, answer =>
      (release.act leaseId answer).map (released leaseId outcome)
  | _, _ => none

end Supervision

/-! ## What a step can do -/

/-- All that a release reports is a request for it, or that it has failed. -/
theorem Release.events_of_act {leaseId : LeaseId} {code next : Release}
    {answer : LaunchAnswer} {events : List LaunchEvent}
    (hact : code.act leaseId answer = some (next, events)) :
    ∀ event ∈ events, (∃ reply, event = .releaseSent leaseId reply) ∨
      event = .releaseWarned leaseId := by
  have hnext : ∀ attempt, ∀ event ∈ (Release.next leaseId attempt).2,
      event = .releaseWarned leaseId := by
    intro attempt
    unfold Release.next
    split <;> simp
  have hanswered : ∀ attempt reply,
      ∀ event ∈ (answered leaseId attempt reply).2,
        event = .releaseWarned leaseId := by
    intro attempt reply
    unfold answered
    split
    · simp
    · split
      · simp
      · exact hnext attempt
  unfold act at hact
  split at hact
  next attempt reply =>
    cases hact
    rw [List.forall_mem_cons]
    exact ⟨Or.inl ⟨reply, rfl⟩,
      fun event hevent => Or.inr (hanswered attempt reply event hevent)⟩
  next attempt =>
    have hevents := hnext attempt
    rw [Option.some.inj hact] at hevents
    exact fun event hevent => Or.inr (hevents event hevent)
  next => contradiction

/-- What the poll loop does for the workload: an attempt to renew its lease, or
a signal on its way. -/
def LaunchEvent.ofPoll : LaunchEvent → Bool
  | .requested _ _ => true
  | .forwarded _ => true
  | .dropped _ => true
  | _ => false

namespace Supervision

variable {named : Int32 → Bool} {request : LeaseRequest} {child : ChildPid}
  {code next : Supervision} {answer : LaunchAnswer}
  {events : List LaunchEvent}

theorem ofPoll_checked (child : ChildPid) (renewal : Renewal)
    (now : Instant) :
    ∀ event ∈ (checked child renewal now).2, event.ofPoll = false := by
  unfold checked
  split
  · simp [LaunchEvent.ofPoll]
  · split <;> simp

theorem ofPoll_renewed (renewal : Renewal) (attemptedAt : Instant)
    (reply : Except ClientError AgentResponse) :
    ∀ event ∈ (renewed renewal attemptedAt reply).2,
      event.ofPoll = false := by
  unfold renewed
  split
  · simp [LaunchEvent.ofPoll]
  · split <;> simp

theorem ofPoll_release {leaseId : LeaseId} {release reached : Release}
    (hrelease : release.act leaseId answer = some (reached, events)) :
    ∀ event ∈ events, event.ofPoll = false := by
  intro event hevent
  rcases Release.events_of_act hrelease event hevent with ⟨reply, rfl⟩ | rfl
  · rfl
  · rfl

theorem ofPoll_terminating (events : List TerminationEvent) :
    ∀ event ∈ events.map LaunchEvent.terminating, event.ofPoll = false := by
  intro event hevent
  obtain ⟨done, -, rfl⟩ := List.mem_map.mp hevent
  rfl

theorem ofPoll_terminated (leaseId : LeaseId)
    (result : Termination × List TerminationEvent) :
    ∀ event ∈ (terminated leaseId result).2, event.ofPoll = false := by
  obtain ⟨code, events⟩ := result
  cases code with
  | returned suppressed =>
      intro event hevent
      rcases List.mem_append.mp hevent with hdone | hreleasing
      · exact ofPoll_terminating events event hdone
      · rw [List.mem_singleton.mp hreleasing]
        rfl
  | _ => exact ofPoll_terminating events

theorem ne_drained_of_release {leaseId : LeaseId}
    {release reached : Release}
    (hrelease : release.act leaseId answer = some (reached, events))
    (signals : List Int32) : answer ≠ .drained signals := by
  rintro rfl
  cases release <;> contradiction

/-- Signals are passed on in one place, and a renewal is attempted in one. -/
theorem act_cases
    (hact : code.act named request child answer = some (next, events)) :
    (∃ renewal signals, code = .draining renewal ∧
        answer = .drained signals ∧ next = .checking renewal ∧
        events = signals.flatMap (forwardToChild named child)) ∨
      (∃ renewal attemptedAt, code = .attempting renewal ∧
        answer = .os (.now attemptedAt) ∧
        next = .renewing renewal attemptedAt ∧
        events = [.requested request attemptedAt]) ∨
      (∀ signals, answer ≠ .drained signals) ∧
        ∀ event ∈ events, event.ofPoll = false := by
  unfold act at hact
  split at hact
  case h_1 renewal status =>
    cases hact
    simp [LaunchEvent.ofPoll]
  case h_2 renewal =>
    cases hact
    simp
  case h_3 renewal signals =>
    cases hact
    exact Or.inl ⟨renewal, signals, rfl, rfl, rfl, rfl⟩
  case h_4 renewal now =>
    have hevents := ofPoll_checked child renewal now
    rw [Option.some.inj hact] at hevents
    exact Or.inr (Or.inr ⟨nofun, hevents⟩)
  case h_5 renewal attemptedAt =>
    cases hact
    exact Or.inr (Or.inl ⟨renewal, attemptedAt, rfl, rfl, rfl, rfl⟩)
  case h_6 renewal attemptedAt reply =>
    have hevents := ofPoll_renewed renewal attemptedAt reply
    rw [Option.some.inj hact] at hevents
    exact Or.inr (Or.inr ⟨nofun, hevents⟩)
  case h_7 renewal oldLeaseId release =>
    obtain ⟨⟨release, done⟩, hrelease, heq⟩ := Option.map_eq_some_iff.mp hact
    have hanswer := ne_drained_of_release hrelease
    have hdone := ofPoll_release hrelease
    cases release <;> cases heq <;> exact Or.inr (Or.inr ⟨hanswer, hdone⟩)
  case h_8 renewal =>
    cases hact
    simp
  case h_9 leaseId code answer =>
    obtain ⟨result, -, heq⟩ := Option.map_eq_some_iff.mp hact
    have hevents := ofPoll_terminated leaseId result
    rw [heq] at hevents
    exact Or.inr (Or.inr ⟨nofun, hevents⟩)
  case h_10 leaseId release outcome =>
    obtain ⟨⟨release, done⟩, hrelease, heq⟩ := Option.map_eq_some_iff.mp hact
    have hanswer := ne_drained_of_release hrelease
    have hdone := ofPoll_release hrelease
    cases release <;> cases heq <;> exact Or.inr (Or.inr ⟨hanswer, hdone⟩)
  case h_11 => contradiction

end Supervision

end Eltanin.Cli
