import Eltanin.LaunchObligations

/-!
# The pace of renewals

A renewal is attempted when half of the time of its lease is over, or when a
retry is due.  A sleep takes at least as long as it is asked to, and otherwise
the clock may stand still.  The invariant says for each place of the poll loop
how far away the next attempt is: a retry keeps its distance by itself, and a
grant keeps it when its half is long enough, or when the lease is over before
the loop has slept once.
-/

namespace Eltanin.Cli

open Eltanin.Core Protocol PartialExecution

/-! ## Calls which take time -/

theorem pollInterval_inRange : 200000000 < UInt64.size * 1000000000 := by
  decide

def pollInterval : Duration := ⟨200000000, pollInterval_inRange⟩

/-- How long the sleep at this place takes, at least. -/
def Release.pause : Release → ℕ
  | .backingOff attempt =>
      (releaseRetryBackoffs[attempt]?.map Duration.asNanos).getD 0
  | _ => 0

def Termination.pause : Termination → ℕ
  | .pausing _ => pollInterval.asNanos
  | _ => 0

def Supervision.pause : Supervision → ℕ
  | .sleeping _ => pollInterval.asNanos
  | .replacing _ _ release => release.pause
  | .terminating _ code => code.pause
  | .releasing _ release _ => release.pause
  | _ => 0

/-- A call of `supervise`; no later reading of the clock is below `earliest`,
in nanoseconds. -/
structure SuperviseCall where
  code : Supervision
  earliest : ℕ
  trace : List LaunchEvent

namespace SuperviseCall

def called (lease : LeaseView) (grantObservedAt now : Instant) :
    SuperviseCall :=
  ⟨.start lease grantObservedAt, now.asNanos, []⟩

def observed (call : SuperviseCall) : LaunchAnswer → Option ℕ
  | .os (.now reading) =>
      if call.earliest ≤ reading.asNanos then some reading.asNanos else none
  | .os .slept => some (call.earliest + call.code.pause)
  | _ => some call.earliest

def step (named : Int32 → Bool) (request : LeaseRequest) (child : ChildPid)
    (call : SuperviseCall) (answer : LaunchAnswer) : Option SuperviseCall :=
  match call.observed answer, call.code.act named request child answer with
  | some earliest, some (code, events) =>
      some ⟨code, earliest, call.trace ++ events⟩
  | _, _ => none

end SuperviseCall

/-! ## Attempts -/

def LaunchEvent.attempt? : LaunchEvent → Option Instant
  | .requested _ attemptedAt => some attemptedAt
  | _ => none

/-- When the renewals were attempted. -/
def attempts (trace : List LaunchEvent) : List Instant :=
  trace.filterMap LaunchEvent.attempt?

/-- Consecutive attempts are `MIN_RENEWAL_RETRY_INTERVAL` apart. -/
def Spaced (trace : List LaunchEvent) : Prop :=
  (attempts trace).IsChain fun earlier later =>
    earlier.asNanos + minRenewalRetryInterval.asNanos ≤ later.asNanos

theorem attempts_append (before after : List LaunchEvent) :
    attempts (before ++ after) = attempts before ++ attempts after :=
  List.filterMap_append

theorem attempts_eq_nil_of_ofPoll {events : List LaunchEvent}
    (hevents : ∀ event ∈ events, event.ofPoll = false) :
    attempts events = [] := by
  rw [attempts, List.filterMap_eq_nil_iff]
  intro event hevent
  have hnone := hevents event hevent
  cases event <;> first | rfl | contradiction

theorem attempts_forwardToChild (named : Int32 → Bool) (child : ChildPid)
    (signals : List Int32) :
    attempts (signals.flatMap (forwardToChild named child)) = [] := by
  induction signals with
  | nil => rfl
  | cons signal rest ih =>
      rw [List.flatMap_cons, attempts_append, ih, List.append_nil]
      unfold forwardToChild
      split
      · rfl
      · split <;> rfl

/-- The time of a lease is over before the loop has slept once, or half of it
is long enough. -/
def KeepsPace (remaining : Duration) : Prop :=
  remaining.asNanos ≤ pollInterval.asNanos ∨
    2 * minRenewalRetryInterval.asNanos ≤ remaining.asNanos

instance (remaining : Duration) : Decidable (KeepsPace remaining) :=
  inferInstanceAs (Decidable (remaining.asNanos ≤ pollInterval.asNanos ∨
    2 * minRenewalRetryInterval.asNanos ≤ remaining.asNanos))

/-- The lease which the reply to a renewal grants. -/
def Supervision.renewedLease? : Supervision → LaunchAnswer → Option LeaseView
  | .renewing _ _, .replied (.ok (.leaseGranted lease)) => some lease
  | _, _ => none

/-- The reply to a renewal grants no lease which breaks the pace. -/
def RenewalKeepsPace (call : SuperviseCall) (answer : LaunchAnswer) : Prop :=
  ∀ lease ∈ call.code.renewedLease? answer, KeepsPace lease.remaining

instance (call : SuperviseCall) (answer : LaunchAnswer) :
    Decidable (RenewalKeepsPace call answer) :=
  inferInstanceAs (Decidable
    (∀ lease ∈ call.code.renewedLease? answer, KeepsPace lease.remaining))

/-! ## How far away the next attempt is -/

/-- After an attempt at `last`, the next one is due far enough from it, or
after the deadline. -/
def Renewal.Paced (last : Instant) (renewal : Renewal) : Prop :=
  last.asNanos + minRenewalRetryInterval.asNanos ≤ renewal.renewAt.asNanos ∨
    renewal.deadline ≤ renewal.renewAt ∨
    renewal.deadline.asNanos ≤ last.asNanos + pollInterval.asNanos

/-- Between an attempt at `last` and the next one the loop sleeps. -/
def Supervision.Paced (last : Instant) (earliest : ℕ) : Supervision → Prop
  | .polling renewal =>
      renewal.Paced last ∧ last.asNanos + pollInterval.asNanos ≤ earliest
  | .draining renewal =>
      renewal.Paced last ∧ last.asNanos + pollInterval.asNanos ≤ earliest
  | .checking renewal =>
      renewal.Paced last ∧ last.asNanos + pollInterval.asNanos ≤ earliest
  | .attempting _ =>
      last.asNanos + minRenewalRetryInterval.asNanos ≤ earliest
  | .renewing _ attemptedAt => attemptedAt = last ∧ last.asNanos ≤ earliest
  | .replacing renewal _ _ => renewal.Paced last ∧ last.asNanos ≤ earliest
  | .sleeping renewal => renewal.Paced last ∧ last.asNanos ≤ earliest
  | _ => True

namespace Renewal

theorem asNanos_adopt (lease : LeaseView) (attemptedAt : Instant) :
    (adopt lease attemptedAt).deadline = attemptedAt ∨
      (adopt lease attemptedAt).deadline.asNanos = attemptedAt.asNanos +
          (lease.remaining.min maxLeaseRemaining).asNanos ∧
        (adopt lease attemptedAt).renewAt.asNanos = attemptedAt.asNanos +
          (lease.remaining.half.min maxLeaseRemaining).asNanos := by
  unfold adopt safeDeadline
  cases hsum : attemptedAt.checkedAdd
      (lease.remaining.min maxLeaseRemaining) with
  | none => exact Or.inl rfl
  | some sum =>
      have hhalf : (lease.remaining.half.min maxLeaseRemaining).asNanos ≤
          (lease.remaining.min maxLeaseRemaining).asNanos := by
        unfold Duration.min Duration.half
        split <;> split <;> dsimp only at * <;> omega
      obtain ⟨renewAt, hrenewAt⟩ := Option.isSome_iff_exists.mp
        (checkedAdd_isSome_of_le hsum hhalf)
      rw [hrenewAt]
      exact Or.inr ⟨asNanos_of_checkedAdd hsum,
        asNanos_of_checkedAdd hrenewAt⟩

theorem paced_adopt {lease : LeaseView} (attemptedAt : Instant)
    (hpaces : KeepsPace lease.remaining) :
    (adopt lease attemptedAt).Paced attemptedAt := by
  rcases asNanos_adopt lease attemptedAt with hfallback | ⟨hdeadline, hrenewAt⟩
  · exact Or.inr (Or.inr (by rw [hfallback]; exact Nat.le_add_right _ _))
  · rcases hpaces with hshort | hlong
    · have hmin := asNanos_min_le_left lease.remaining maxLeaseRemaining
      exact Or.inr (Or.inr (by omega))
    · have hhalf : minRenewalRetryInterval.asNanos ≤
          (lease.remaining.half.min maxLeaseRemaining).asNanos := by
        unfold Duration.min
        split
        · change _ ≤ lease.remaining.asNanos / 2
          omega
        · decide
      exact Or.inl (by omega)

theorem paced_retry {renewal : Renewal} {attemptedAt renewAt : Instant}
    (hretry : nextRenewalRetry attemptedAt renewal.deadline =
      .returned renewAt) :
    ({ renewal with renewAt } : Renewal).Paced attemptedAt := by
  obtain ⟨-, hspaced | heq⟩ := nextRenewalRetry_bounds hretry
  · exact Or.inl hspaced
  · exact Or.inr (Or.inl (by rw [heq]; exact Nat.le_refl _))

end Renewal

namespace Supervision

variable {named : Int32 → Bool} {request : LeaseRequest} {child : ChildPid}
  {code next : Supervision} {answer : LaunchAnswer}
  {events : List LaunchEvent} {last : Instant} {earliest later : ℕ}

/-- A poll which finds neither the deadline nor the next attempt due keeps the
pace, and one which attempts a renewal has kept its distance. -/
theorem paced_checked (child : ChildPid) {renewal : Renewal} {now : Instant}
    (hpaced : renewal.Paced last)
    (hslept : last.asNanos + pollInterval.asNanos ≤ now.asNanos) :
    (checked child renewal now).1.Paced last now.asNanos := by
  unfold checked
  split
  next => trivial
  next hbefore =>
    have hbefore : now.asNanos < renewal.deadline.asNanos :=
      Nat.lt_of_not_le hbefore
    split
    next hdue =>
      have hdue : renewal.renewAt.asNanos ≤ now.asNanos := hdue
      rcases hpaced with hspaced | hdeadline | hshort
      · exact hspaced.trans hdue
      · have hdeadline : renewal.deadline.asNanos ≤
            renewal.renewAt.asNanos := hdeadline
        omega
      · omega
    next => exact ⟨hpaced, by omega⟩

theorem paced_renewed (renewal : Renewal)
    {reply : Except ClientError AgentResponse}
    (hgrants : ∀ lease, reply = .ok (.leaseGranted lease) →
      KeepsPace lease.remaining)
    (hlast : last.asNanos ≤ earliest) :
    (renewed renewal last reply).1.Paced last earliest := by
  unfold renewed
  split
  next lease => exact ⟨Renewal.paced_adopt last (hgrants lease rfl), hlast⟩
  next =>
    split
    next renewAt hretry => exact ⟨Renewal.paced_retry hretry, hlast⟩
    next => trivial

theorem paced_replaced {renewal : Renewal} (hpaced : renewal.Paced last)
    (hlast : last.asNanos ≤ earliest) (oldLeaseId : LeaseId)
    (result : Release × List LaunchEvent) :
    (replaced renewal oldLeaseId result).1.Paced last earliest := by
  obtain ⟨release, events⟩ := result
  cases release <;> exact ⟨hpaced, hlast⟩

theorem paced_terminated (last : Instant) (earliest : ℕ) (leaseId : LeaseId)
    (result : Termination × List TerminationEvent) :
    (terminated leaseId result).1.Paced last earliest := by
  obtain ⟨code, events⟩ := result
  cases code <;> trivial

theorem paced_released (last : Instant) (earliest : ℕ) (leaseId : LeaseId)
    (outcome : RunOutcome) (result : Release × List LaunchEvent) :
    (released leaseId outcome result).1.Paced last earliest := by
  obtain ⟨release, events⟩ := result
  cases release <;> trivial

theorem attempts_of_act
    (hact : code.act named request child answer = some (next, events)) :
    attempts events = [] ∨
      ∃ renewal attemptedAt, code = .attempting renewal ∧
        answer = .os (.now attemptedAt) ∧
        next = .renewing renewal attemptedAt ∧
        attempts events = [attemptedAt] := by
  rcases act_cases hact with
    ⟨renewal, signals, -, -, -, rfl⟩ |
    ⟨renewal, attemptedAt, hcode, hanswer, hnext, rfl⟩ | ⟨-, hevents⟩
  · exact Or.inl (attempts_forwardToChild named child signals)
  · exact Or.inr ⟨renewal, attemptedAt, hcode, hanswer, hnext, rfl⟩
  · exact Or.inl (attempts_eq_nil_of_ofPoll hevents)

/-- A step which attempts nothing keeps the pace. -/
theorem paced_of_act
    (hact : code.act named request child answer = some (next, events))
    (hnone : attempts events = []) (hpaced : code.Paced last earliest)
    (hgrants : ∀ lease ∈ code.renewedLease? answer,
      KeepsPace lease.remaining)
    (hle : earliest ≤ later)
    (hreading : ∀ reading, answer = .os (.now reading) →
      later = reading.asNanos)
    (hslept : answer = .os .slept → earliest + code.pause ≤ later) :
    next.Paced last later := by
  unfold act at hact
  split at hact
  case h_1 renewal status =>
    cases hact
    trivial
  case h_2 renewal =>
    cases hact
    exact ⟨hpaced.1, hpaced.2.trans hle⟩
  case h_3 renewal signals =>
    cases hact
    exact ⟨hpaced.1, hpaced.2.trans hle⟩
  case h_4 renewal now =>
    have hlater := hreading now rfl
    have hchecked := paced_checked child hpaced.1
      (hlater ▸ hpaced.2.trans hle)
    rw [Option.some.inj hact, ← hlater] at hchecked
    exact hchecked
  case h_5 renewal attemptedAt =>
    cases hact
    contradiction
  case h_6 renewal attemptedAt reply =>
    obtain ⟨rfl, hlast⟩ := hpaced
    have hreply : ∀ lease, reply = .ok (.leaseGranted lease) →
        KeepsPace lease.remaining := by
      intro lease heq
      subst heq
      exact hgrants lease rfl
    have hrenewed := paced_renewed renewal hreply (hlast.trans hle)
    rw [Option.some.inj hact] at hrenewed
    exact hrenewed
  case h_7 renewal oldLeaseId release =>
    obtain ⟨result, -, heq⟩ := Option.map_eq_some_iff.mp hact
    have hreplaced := paced_replaced hpaced.1 (hpaced.2.trans hle)
      oldLeaseId result
    rw [heq] at hreplaced
    exact hreplaced
  case h_8 renewal =>
    cases hact
    have hpause : earliest + pollInterval.asNanos ≤ later := hslept rfl
    exact ⟨hpaced.1, (Nat.add_le_add_right hpaced.2 _).trans hpause⟩
  case h_9 leaseId code answer =>
    obtain ⟨result, -, heq⟩ := Option.map_eq_some_iff.mp hact
    have hterminated := paced_terminated last later leaseId result
    rw [heq] at hterminated
    exact hterminated
  case h_10 leaseId release outcome =>
    obtain ⟨result, -, heq⟩ := Option.map_eq_some_iff.mp hact
    have hreleased := paced_released last later leaseId outcome result
    rw [heq] at hreleased
    exact hreleased
  case h_11 => contradiction

end Supervision

/-! ## Runs -/

namespace SuperviseCall

variable {named : Int32 → Bool} {request : LeaseRequest} {child : ChildPid}
  {call next : SuperviseCall} {answer : LaunchAnswer}

theorem step_cases (hstep : call.step named request child answer = some next) :
    ∃ events,
      call.code.act named request child answer = some (next.code, events) ∧
      next.trace = call.trace ++ events ∧
      call.observed answer = some next.earliest := by
  unfold step at hstep
  split at hstep
  next earliest code events hobserved hact =>
    cases hstep
    exact ⟨events, hact, rfl, hobserved⟩
  next => contradiction

theorem observed_cases {later : ℕ}
    (hobserved : call.observed answer = some later) :
    call.earliest ≤ later ∧
      (∀ reading, answer = .os (.now reading) → later = reading.asNanos) ∧
      (answer = .os .slept → call.earliest + call.code.pause ≤ later) := by
  unfold observed at hobserved
  split at hobserved
  next reading =>
    split at hobserved
    next hle =>
      cases hobserved
      exact ⟨hle, fun other heq => by cases heq; rfl,
        fun heq => nomatch heq⟩
    next => contradiction
  next =>
    cases hobserved
    exact ⟨Nat.le_add_right _ _, fun _ heq => (nomatch heq),
      fun _ => Nat.le_refl _⟩
  next hnow hslept =>
    cases hobserved
    exact ⟨Nat.le_refl _, fun other heq => (hnow other heq).elim,
      fun heq => (hslept heq).elim⟩

/-- The attempts so far are spaced, and so is the next one. -/
structure Paced (call : SuperviseCall) : Prop where
  spaced : Spaced call.trace
  next : ∀ last ∈ (attempts call.trace).getLast?,
    call.code.Paced last call.earliest

theorem Paced.step (hpaced : call.Paced)
    (hgrants : RenewalKeepsPace call answer)
    (hstep : call.step named request child answer = some next) :
    next.Paced := by
  obtain ⟨events, hact, htrace, hobserved⟩ := step_cases hstep
  obtain ⟨hle, hreading, hslept⟩ := observed_cases hobserved
  have hattempts : attempts next.trace =
      attempts call.trace ++ attempts events := by
    rw [htrace, attempts_append]
  rcases Supervision.attempts_of_act hact with hnone |
    ⟨renewal, attemptedAt, hcode, hanswer, hnext, hattempt⟩
  · rw [hnone, List.append_nil] at hattempts
    constructor
    · rw [Spaced, hattempts]
      exact hpaced.spaced
    · intro last hlast
      rw [hattempts] at hlast
      exact Supervision.paced_of_act hact hnone (hpaced.next last hlast)
        hgrants hle hreading hslept
  · rw [hattempt] at hattempts
    have hnow := hreading attemptedAt hanswer
    constructor
    · rw [Spaced, hattempts]
      apply hpaced.spaced.append (List.isChain_singleton _)
      intro last hlast first hfirst
      have hdistance := hpaced.next last hlast
      rw [hcode] at hdistance
      cases hfirst
      exact (hnow ▸ Nat.le_trans hdistance hle)
    · intro last hlast
      rw [hattempts, List.getLast?_append] at hlast
      cases hlast
      rw [hnext, hnow]
      exact ⟨rfl, Nat.le_refl _⟩

/-- In a run in which every renewal is granted less time than one sleep takes,
or no less than twice the interval, no two attempts are too close. -/
theorem renewals_spaced (named : Int32 → Bool) (request : LeaseRequest)
    (child : ChildPid) (lease : LeaseView) (grantObservedAt now : Instant)
    (answers : List LaunchAnswer) {final : SuperviseCall}
    (hrun : execute (step named request child)
      (called lease grantObservedAt now) answers = some final)
    (hgrants : Guarded RenewalKeepsPace (step named request child)
      (called lease grantObservedAt now) answers) :
    Spaced final.trace := by
  have hpaced : final.Paced := by
    apply execute_guarded_invariant RenewalKeepsPace Paced
      (fun call answer next hcall hanswer hstep => hcall.step hanswer hstep)
      _ hgrants hrun
    exact ⟨.nil, fun last hlast => nomatch hlast⟩
  exact hpaced.spaced

/-! ## A lease which is renewed once -/

def sampleStart : SuperviseCall :=
  .called (LaunchRun.sampleLease 0) (Lapse.sampleReading 0)
    (Lapse.sampleReading 0)

def renewedLease (remaining : Duration) : LeaseView :=
  ⟨⟨⟨"issuer"⟩, 1⟩, remaining⟩

/-- The lease of ten seconds is renewed after five, and the loop attempts the
next renewal after one sleep. -/
def renewedOnce (remaining : Duration) (due : Instant) : List LaunchAnswer :=
  [.os (.waited none), .drained [], LaunchRun.sampleNow 5,
    LaunchRun.sampleNow 5,
    .replied (.ok (.leaseGranted (renewedLease remaining))),
    .replied (.ok (.leaseReleased .released)), .os .slept,
    .os (.waited none), .drained [], .os (.now due), .os (.now due)]

def sampleRenewal (remaining : Duration) : Renewal :=
  .adopt (renewedLease remaining) (Lapse.sampleReading 5)

theorem execute_renewedOnce (remaining : Duration) (due : Instant)
    (hslept : (Lapse.sampleReading 5).asNanos + pollInterval.asNanos ≤
      due.asNanos)
    (hdue : (sampleRenewal remaining).renewAt ≤ due)
    (hbefore : due.asNanos < (sampleRenewal remaining).deadline.asNanos) :
    ∃ final,
      execute (step (fun _ => true) LaunchRun.sampleRequest Lapse.samplePid)
        sampleStart (renewedOnce remaining due) = some final ∧
      attempts final.trace = [Lapse.sampleReading 5, due] := by
  have hchecked :
      Supervision.checked Lapse.samplePid (sampleRenewal remaining) due =
        (.attempting (sampleRenewal remaining), []) :=
    (if_neg (Nat.not_le_of_lt hbefore)).trans (if_pos hdue)
  have hrenewed : ∃ trace,
      execute (step (fun _ => true) LaunchRun.sampleRequest Lapse.samplePid)
        sampleStart ((renewedOnce remaining due).take 9) =
          some ⟨.checking (sampleRenewal remaining),
            (Lapse.sampleReading 5).asNanos + pollInterval.asNanos, trace⟩ ∧
        attempts trace = [Lapse.sampleReading 5] := ⟨_, rfl, rfl⟩
  obtain ⟨trace, hrenewed, hattempts⟩ := hrenewed
  have hattempted :
      execute (step (fun _ => true) LaunchRun.sampleRequest Lapse.samplePid)
        ⟨.checking (sampleRenewal remaining),
          (Lapse.sampleReading 5).asNanos + pollInterval.asNanos, trace⟩
        [.os (.now due), .os (.now due)] =
          some ⟨.renewing (sampleRenewal remaining) due, due.asNanos,
            trace ++ [] ++ [.requested LaunchRun.sampleRequest due]⟩ := by
    simp only [execute, step, observed, Supervision.act, if_pos hslept,
      hchecked, Nat.le_refl, if_true]
  refine ⟨_, execute_append_eq_some_iff.mpr ⟨_, hrenewed, hattempted⟩, ?_⟩
  rw [attempts_append, attempts_append, hattempts]
  rfl

/-- Half of two seconds is long enough. -/
theorem renewals_spaced_renewedOnce :
    ∃ final,
      execute (step (fun _ => true) LaunchRun.sampleRequest Lapse.samplePid)
        sampleStart (renewedOnce ⟨2000000000, by decide⟩
          (Lapse.sampleReading 6)) = some final ∧
      attempts final.trace =
        [Lapse.sampleReading 5, Lapse.sampleReading 6] ∧
      Spaced final.trace := by
  have hpaces : Guarded RenewalKeepsPace
      (step (fun _ => true) LaunchRun.sampleRequest Lapse.samplePid)
      sampleStart (renewedOnce ⟨2000000000, by decide⟩
        (Lapse.sampleReading 6)) := by
    decide
  obtain ⟨final, hrun, hattempts⟩ :=
    execute_renewedOnce ⟨2000000000, by decide⟩ (Lapse.sampleReading 6)
      (by decide) (by decide) (by decide)
  exact ⟨final, hrun, hattempts,
    renewals_spaced _ _ _ _ _ _ _ hrun hpaces⟩

/-- Of 400 ms one half is over after one sleep. -/
theorem short_grant_renewed_hot :
    ∃ final,
      execute (step (fun _ => true) LaunchRun.sampleRequest Lapse.samplePid)
        sampleStart (renewedOnce ⟨400000000, by decide⟩
          ⟨5200000000, by decide⟩) = some final ∧
      attempts final.trace =
        [Lapse.sampleReading 5, ⟨5200000000, by decide⟩] ∧
      ¬Spaced final.trace := by
  refine ⟨_, rfl, rfl, ?_⟩
  change ¬List.IsChain _ [_, _]
  rw [List.isChain_pair]
  decide

theorem asNanos_safeDeadline (base : Instant) (remaining : Duration)
    (hlimit : remaining.asNanos ≤ maxLeaseRemaining.asNanos)
    (hrange : remaining.asNanos + base.asNanos <
      9223372036854775808 * 1000000000) :
    (safeDeadline base remaining).asNanos =
      base.asNanos + remaining.asNanos := by
  have hmin : remaining.min maxLeaseRemaining = remaining := if_pos hlimit
  rw [safeDeadline, hmin, Instant.checkedAdd, dif_pos hrange]
  exact Nat.add_comm _ _

/-- A grant which breaks the pace lets two attempts be too close. -/
theorem exists_hot_of_not_keepsPace {remaining : Duration}
    (hbreaks : ¬KeepsPace remaining) :
    ∃ due final,
      execute (step (fun _ => true) LaunchRun.sampleRequest Lapse.samplePid)
        sampleStart (renewedOnce remaining due) = some final ∧
      ¬Spaced final.trace := by
  obtain ⟨hlong, hshort⟩ := not_or.mp hbreaks
  have hpoll : pollInterval.asNanos = 200000000 := rfl
  have hmin : minRenewalRetryInterval.asNanos = 500000000 := rfl
  have hbase : (Lapse.sampleReading 5).asNanos = 5000000000 := rfl
  have hlimit : maxLeaseRemaining.asNanos = 31536000000000000 := rfl
  have hhalf : remaining.half.asNanos = remaining.asNanos / 2 := rfl
  -- the first poll after a sleep which finds half of the time over
  obtain ⟨due, hdueAt⟩ : ∃ due : Instant, due.asNanos =
      (Lapse.sampleReading 5).asNanos +
        max pollInterval.asNanos remaining.half.asNanos :=
    ⟨⟨_, by omega⟩, rfl⟩
  have hlast : due.asNanos <
      (Lapse.sampleReading 5).asNanos + remaining.asNanos := by omega
  have hclose : ¬(Lapse.sampleReading 5).asNanos +
      minRenewalRetryInterval.asNanos ≤ due.asNanos := by omega
  have hslept : (Lapse.sampleReading 5).asNanos + pollInterval.asNanos ≤
      due.asNanos := by omega
  have hhalved : (Lapse.sampleReading 5).asNanos + remaining.half.asNanos ≤
      due.asNanos := by omega
  have hdeadline : (sampleRenewal remaining).deadline =
      safeDeadline (Lapse.sampleReading 5) remaining := by
    simp only [sampleRenewal, Renewal.adopt, renewedLease]
  have hrenewAt : (sampleRenewal remaining).renewAt =
      safeDeadline (Lapse.sampleReading 5) remaining.half := by
    simp only [sampleRenewal, Renewal.adopt, renewedLease]
  have hdue : (sampleRenewal remaining).renewAt.asNanos ≤ due.asNanos := by
    rw [hrenewAt, asNanos_safeDeadline _ _ (by omega) (by omega)]
    exact hhalved
  have hbefore : due.asNanos <
      (sampleRenewal remaining).deadline.asNanos := by
    rw [hdeadline, asNanos_safeDeadline _ _ (by omega) (by omega)]
    exact hlast
  obtain ⟨final, hrun, hattempts⟩ := execute_renewedOnce remaining due
    hslept hdue hbefore
  refine ⟨due, final, hrun, ?_⟩
  rw [Spaced, hattempts, List.isChain_pair]
  exact hclose

end SuperviseCall

end Eltanin.Cli
