import Eltanin.HostTimeline

/-!
# The lease which a launch holds

Deadlines are computed from any duration, however long.  A launch holds a
lease, or an attempt to obtain one, or both; each of its steps is one of five
changes of the two.  So what is held has always been granted, and its instants
stay within a year of the reading which they are counted from, whatever has
been replied.
-/

namespace Eltanin.Cli

open Eltanin.Core Protocol PartialExecution

/-! ## Deadlines from any duration -/

/-- `instant` is not before `base` and at most `MAX_LEASE_REMAINING` after
it. -/
structure WithinLimit (base instant : Instant) : Prop where
  le : base ≤ instant
  limit : instant.asNanos ≤ base.asNanos + maxLeaseRemaining.asNanos

theorem WithinLimit.refl (base : Instant) : WithinLimit base base :=
  ⟨Nat.le_refl _, Nat.le_add_right _ _⟩

theorem asNanos_min_le_left (duration limit : Duration) :
    (duration.min limit).asNanos ≤ duration.asNanos := by
  unfold Duration.min
  split
  · exact Nat.le_refl _
  next hgt => exact (Nat.lt_of_not_le hgt).le

theorem asNanos_min_le_right (duration limit : Duration) :
    (duration.min limit).asNanos ≤ limit.asNanos := by
  unfold Duration.min
  split
  next hle => exact hle
  · exact Nat.le_refl _

theorem asNanos_of_checkedAdd {base sum : Instant} {duration : Duration}
    (hsum : base.checkedAdd duration = some sum) :
    sum.asNanos = base.asNanos + duration.asNanos := by
  unfold Instant.checkedAdd at hsum
  split at hsum
  · cases hsum
    exact Nat.add_comm _ _
  · contradiction

theorem checkedAdd_isSome_of_le {base sum : Instant}
    {shorter longer : Duration} (hsum : base.checkedAdd longer = some sum)
    (hle : shorter.asNanos ≤ longer.asNanos) :
    (base.checkedAdd shorter).isSome := by
  unfold Instant.checkedAdd at hsum ⊢
  split at hsum
  next hrange =>
    rw [dif_pos (lt_of_le_of_lt (Nat.add_le_add_right hle _) hrange)]
    rfl
  next => contradiction

theorem asNanos_of_add {base sum : Instant} {duration : Duration}
    (hsum : base.add duration = .returned sum) :
    sum.asNanos = base.asNanos + duration.asNanos := by
  unfold Instant.add at hsum
  split at hsum
  next hchecked =>
    cases hsum
    exact asNanos_of_checkedAdd hchecked
  next => contradiction

/-- The sum, or the fallback where the sum is out of range. -/
theorem safeDeadline_cases (base : Instant) (remaining : Duration) :
    safeDeadline base remaining = base ∨
      (safeDeadline base remaining).asNanos =
        base.asNanos + (remaining.min maxLeaseRemaining).asNanos := by
  unfold safeDeadline
  cases hsum : base.checkedAdd (remaining.min maxLeaseRemaining) with
  | none => exact Or.inl rfl
  | some sum => exact Or.inr (asNanos_of_checkedAdd hsum)

theorem withinLimit_safeDeadline (base : Instant) (remaining : Duration) :
    WithinLimit base (safeDeadline base remaining) := by
  rcases safeDeadline_cases base remaining with hfallback | hsum
  · rw [hfallback]
    exact WithinLimit.refl base
  · have hlimit := asNanos_min_le_right remaining maxLeaseRemaining
    constructor
    · change base.asNanos ≤ _
      omega
    · omega

theorem asNanos_safeDeadline_le (base : Instant) (remaining : Duration) :
    (safeDeadline base remaining).asNanos ≤
      base.asNanos + remaining.asNanos := by
  rcases safeDeadline_cases base remaining with hfallback | hsum
  · rw [hfallback]
    exact Nat.le_add_right _ _
  · have hmin := asNanos_min_le_left remaining maxLeaseRemaining
    omega

/-- A retry is not later than the deadline, and it keeps its distance from the
attempt before it unless it is at the deadline. -/
theorem nextRenewalRetry_bounds {attemptedAt deadline renewAt : Instant}
    (hretry : nextRenewalRetry attemptedAt deadline = .returned renewAt) :
    renewAt ≤ deadline ∧
      (attemptedAt.asNanos + minRenewalRetryInterval.asNanos ≤
          renewAt.asNanos ∨
        renewAt = deadline) := by
  unfold nextRenewalRetry at hretry
  split at hretry
  next => contradiction
  next backedOff hbackedOff =>
    split at hretry
    next => contradiction
    next floored hfloored =>
      have hfloored := asNanos_of_add hfloored
      cases hretry
      have hmax : floored ≤ backedOff.max floored := by
        unfold Instant.max
        split
        next => exact Nat.le_refl _
        next hless => exact (Nat.lt_of_not_le hless).le
      rw [← hfloored]
      unfold Instant.min
      split
      next hle => exact ⟨hle, Or.inl hmax⟩
      next => exact ⟨Nat.le_refl _, Or.inr rfl⟩

/-- A retry panics only at the end of the range of the clock, whatever the
deadline is. -/
theorem checkedAdd_eq_none_of_retry {attemptedAt deadline : Instant}
    (hretry : nextRenewalRetry attemptedAt deadline = .panicked) :
    attemptedAt.checkedAdd renewalRetryBackoff = none := by
  cases hbackedOff : attemptedAt.checkedAdd renewalRetryBackoff with
  | none => rfl
  | some backedOff =>
      have hless : minRenewalRetryInterval.asNanos ≤
          renewalRetryBackoff.asNanos := by decide
      obtain ⟨floored, hfloored⟩ := Option.isSome_iff_exists.mp
        (checkedAdd_isSome_of_le hbackedOff hless)
      simp [nextRenewalRetry, Instant.add, hbackedOff, hfloored] at hretry

/-- Both instants of the renewal are within the limit. -/
structure Renewal.Within (base : Instant) (renewal : Renewal) : Prop where
  deadline : WithinLimit base renewal.deadline
  renewAt : WithinLimit base renewal.renewAt

namespace Renewal.Within

variable {base attemptedAt renewAt : Instant} {renewal : Renewal}

theorem adopt (lease : LeaseView) (base : Instant) :
    (Renewal.adopt lease base).Within base where
  deadline := withinLimit_safeDeadline base lease.remaining
  renewAt := withinLimit_safeDeadline base lease.remaining.half

theorem retry (hwithin : renewal.Within base) (hbase : base ≤ attemptedAt)
    (hretry : nextRenewalRetry attemptedAt renewal.deadline =
      .returned renewAt) :
    ({ renewal with renewAt } : Renewal).Within base where
  deadline := hwithin.deadline
  renewAt := by
    obtain ⟨hle, hattempted | heq⟩ := nextRenewalRetry_bounds hretry
    · exact ⟨Nat.le_trans hbase
          (Nat.le_trans (Nat.le_add_right _ _) hattempted),
        Nat.le_trans hle hwithin.deadline.limit⟩
    · rw [heq]
      exact hwithin.deadline

end Renewal.Within

/-! ## How a launch comes by the lease it holds -/

/-- The lease which is held, and the reading before a request for another. -/
structure Holding where
  renewal? : Option Renewal
  attemptedAt? : Option Instant

/-- What a step can do to the lease which is held: a request is sent after a
reading of the clock, and its reply is a grant, which is adopted, or a setback,
after which only the time of the next attempt is another. -/
inductive Holding.Step (answer : LaunchAnswer) (events : List LaunchEvent) :
    Holding → Holding → Prop
  | keep (held : Option Renewal) : Step answer events ⟨held, none⟩ ⟨held, none⟩
  | drop (before : Holding) : Step answer events before ⟨none, none⟩
  | attempt (held : Option Renewal) (attemptedAt : Instant)
      (hanswer : answer = .os (.now attemptedAt)) :
      Step answer events ⟨held, none⟩ ⟨held, some attemptedAt⟩
  | adopt (held : Option Renewal) (attemptedAt : Instant) (lease : LeaseView)
      (hanswer : answer = .replied (.ok (.leaseGranted lease)))
      (hevent : .granted lease attemptedAt ∈ events) :
      Step answer events ⟨held, some attemptedAt⟩
        ⟨some (.adopt lease attemptedAt), none⟩
  | retry (renewal : Renewal) (attemptedAt renewAt : Instant)
      (hretry : nextRenewalRetry attemptedAt renewal.deadline =
        .returned renewAt) :
      Step answer events ⟨some renewal, some attemptedAt⟩
        ⟨some { renewal with renewAt }, none⟩

theorem Holding.Step.answer_of_attempted {answer : LaunchAnswer}
    {events : List LaunchEvent} {before after : Holding}
    {attemptedAt : Instant} (hstep : Holding.Step answer events before after)
    (hattempted : after.attemptedAt? = some attemptedAt) :
    answer = .os (.now attemptedAt) := by
  cases hstep with
  | attempt held reading hanswer =>
      cases hattempted
      exact hanswer
  | _ => contradiction

/-- A property of the lease which is held is kept when every grant has it and
no retry loses it. -/
theorem Holding.Step.held {answer : LaunchAnswer}
    {events : List LaunchEvent} {before after : Holding}
    (hstep : Holding.Step answer events before after) (Holds : Renewal → Prop)
    (hbefore : ∀ renewal, before.renewal? = some renewal → Holds renewal)
    (hadopt : ∀ lease attemptedAt, before.attemptedAt? = some attemptedAt →
      answer = .replied (.ok (.leaseGranted lease)) →
        Holds (.adopt lease attemptedAt))
    (hretry : ∀ renewal renewAt, Holds renewal →
      Holds { renewal with renewAt }) :
    ∀ renewal, after.renewal? = some renewal → Holds renewal := by
  intro renewal hafter
  cases hstep with
  | keep held => exact hbefore renewal hafter
  | drop => contradiction
  | attempt held attemptedAt hanswer => exact hbefore renewal hafter
  | adopt held attemptedAt lease hanswer hevent =>
      cases hafter
      exact hadopt lease attemptedAt rfl hanswer
  | retry old attemptedAt renewAt hreturned =>
      cases hafter
      exact hretry old renewAt (hbefore old rfl)

namespace Supervision

def holding (code : Supervision) : Holding :=
  ⟨code.renewal?, code.attemptedAt?⟩

variable {named : Int32 → Bool} {request : LeaseRequest} {child : ChildPid}
  {code next : Supervision} {answer : LaunchAnswer}
  {events : List LaunchEvent}

/-- A poll lets the workload run on only before the deadline. -/
theorem holding_checked (child : ChildPid) (renewal : Renewal)
    (now : Instant) :
    (checked child renewal now).1.holding = ⟨none, none⟩ ∨
      (checked child renewal now).1.holding = ⟨some renewal, none⟩ ∧
        now < renewal.deadline := by
  unfold checked
  split
  next => exact Or.inl rfl
  next hbefore =>
    refine Or.inr ⟨?_, Nat.lt_of_not_le hbefore⟩
    split <;> rfl

theorem step_renewed (renewal : Renewal) (attemptedAt : Instant)
    (reply : Except ClientError AgentResponse) :
    Holding.Step (.replied reply) (renewed renewal attemptedAt reply).2
      ⟨some renewal, some attemptedAt⟩
      (renewed renewal attemptedAt reply).1.holding := by
  unfold renewed
  split
  next lease => exact .adopt _ attemptedAt lease rfl List.mem_cons_self
  next =>
    split
    next renewAt hretry => exact .retry renewal attemptedAt renewAt hretry
    next => exact .drop _

theorem holding_replaced (renewal : Renewal) (oldLeaseId : LeaseId)
    (result : Release × List LaunchEvent) :
    (replaced renewal oldLeaseId result).1.holding =
      ⟨some renewal, none⟩ := by
  obtain ⟨release, events⟩ := result
  cases release <;> rfl

theorem holding_terminated (leaseId : LeaseId)
    (result : Termination × List TerminationEvent) :
    (terminated leaseId result).1.holding = ⟨none, none⟩ := by
  obtain ⟨code, events⟩ := result
  cases code <;> rfl

theorem holding_released (leaseId : LeaseId) (outcome : RunOutcome)
    (result : Release × List LaunchEvent) :
    (released leaseId outcome result).1.holding = ⟨none, none⟩ := by
  obtain ⟨release, events⟩ := result
  cases release <;> rfl

theorem holding_step
    (hact : code.act named request child answer = some (next, events)) :
    Holding.Step answer events code.holding next.holding := by
  unfold act at hact
  split at hact
  case h_1 renewal status =>
    cases hact
    exact .drop _
  case h_2 renewal =>
    cases hact
    exact .keep _
  case h_3 renewal signals =>
    cases hact
    exact .keep _
  case h_4 renewal now =>
    have hchecked : (checked child renewal now).1 = next :=
      congrArg Prod.fst (Option.some.inj hact)
    rw [← hchecked]
    rcases holding_checked child renewal now with hdrop | ⟨hkeep, -⟩
    · rw [hdrop]
      exact .drop _
    · rw [hkeep]
      exact .keep _
  case h_5 renewal attemptedAt =>
    cases hact
    exact .attempt _ attemptedAt rfl
  case h_6 renewal attemptedAt reply =>
    have hstep := step_renewed renewal attemptedAt reply
    rw [Option.some.inj hact] at hstep
    exact hstep
  case h_7 renewal oldLeaseId release =>
    obtain ⟨result, -, heq⟩ := Option.map_eq_some_iff.mp hact
    have hholding := holding_replaced renewal oldLeaseId result
    rw [heq] at hholding
    rw [show next.holding = _ from hholding]
    exact .keep _
  case h_8 renewal =>
    cases hact
    exact .keep _
  case h_9 leaseId code answer =>
    obtain ⟨result, -, heq⟩ := Option.map_eq_some_iff.mp hact
    have hholding := holding_terminated leaseId result
    rw [heq] at hholding
    rw [show next.holding = _ from hholding]
    exact .drop _
  case h_10 leaseId release outcome =>
    obtain ⟨result, -, heq⟩ := Option.map_eq_some_iff.mp hact
    have hholding := holding_released leaseId outcome result
    rw [heq] at hholding
    rw [show next.holding = _ from hholding]
    exact .drop _
  case h_11 => contradiction

end Supervision

namespace Launch

def holding (code : Launch) : Holding := ⟨code.renewal?, code.attemptedAt?⟩

variable {named : Int32 → Bool} {code next : Launch} {answer : LaunchAnswer}
  {events : List LaunchEvent}

theorem holding_supervised (request : LeaseRequest) (child : ChildPid)
    (result : Supervision × List LaunchEvent) :
    (supervised request child result).1.holding = result.1.holding ∧
      (supervised request child result).2 = result.2 := by
  obtain ⟨code, events⟩ := result
  cases code <;> exact ⟨rfl, rfl⟩

theorem holding_released (leaseId : LeaseId) (outcome : LaunchOutcome)
    (result : Release × List LaunchEvent) :
    (released leaseId outcome result).1.holding = ⟨none, none⟩ := by
  obtain ⟨release, events⟩ := result
  cases release <;> rfl

theorem step_initiallyGranted (request : LeaseRequest)
    (grantObservedAt : Instant) (reply : Except ClientError AgentResponse) :
    Holding.Step (.replied reply)
      (initiallyGranted request grantObservedAt (initialLease reply)).2
      ⟨none, some grantObservedAt⟩
      (initiallyGranted request grantObservedAt
        (initialLease reply)).1.holding := by
  unfold initialLease
  split
  next error => exact .drop _
  next lease => exact .adopt _ grantObservedAt lease rfl List.mem_cons_self
  next => exact .drop _

theorem holding_step
    (hact : code.act named answer = some (next, events)) :
    Holding.Step answer events code.holding next.holding := by
  unfold act at hact
  split at hact
  case h_5 request socketPath =>
    cases hact
    unfold connected
    split <;> exact .keep _
  case h_6 request grantObservedAt =>
    cases hact
    exact .attempt _ grantObservedAt rfl
  case h_7 request grantObservedAt reply =>
    have hstep := step_initiallyGranted request grantObservedAt reply
    rw [Option.some.inj hact] at hstep
    exact hstep
  case h_8 request lease grantObservedAt =>
    cases hact
    exact .keep _
  case h_10 request lease grantObservedAt child =>
    cases hact
    exact .keep _
  case h_12 request child code =>
    obtain ⟨result, hsupervision, heq⟩ := Option.map_eq_some_iff.mp hact
    obtain ⟨hholding, hevents⟩ := holding_supervised request child result
    rw [heq] at hholding hevents
    have hstep := Supervision.holding_step hsupervision
    rw [← hholding, ← hevents] at hstep
    exact hstep
  case h_13 leaseId release outcome =>
    obtain ⟨result, -, heq⟩ := Option.map_eq_some_iff.mp hact
    have hholding := holding_released leaseId outcome result
    rw [heq] at hholding
    rw [show next.holding = _ from hholding]
    exact .drop _
  case h_16 => contradiction
  all_goals
    cases hact
    exact .drop _

end Launch

/-! ## Awaiting a reply -/

section Replied

variable {named : Int32 → Bool} {request : LeaseRequest} {child : ChildPid}
  {leaseId : LeaseId} {answer : LaunchAnswer}

theorem Release.replied_of_act {code : Release}
    {result : Release × List LaunchEvent}
    (hasks : (code.asks leaseId).isSome)
    (hact : code.act leaseId answer = some result) :
    ∃ reply, answer = .replied reply := by
  cases code with
  | sending attempt =>
      cases answer with
      | replied reply => exact ⟨reply, rfl⟩
      | _ => contradiction
  | _ => contradiction

theorem Supervision.replied_of_act {code : Supervision}
    {result : Supervision × List LaunchEvent}
    (hasks : (code.asks request).isSome)
    (hact : code.act named request child answer = some result) :
    ∃ reply, answer = .replied reply := by
  cases code with
  | renewing renewal attemptedAt =>
      cases answer with
      | replied reply => exact ⟨reply, rfl⟩
      | _ => contradiction
  | replacing renewal oldLeaseId release =>
      obtain ⟨_, hrelease, -⟩ := Option.map_eq_some_iff.mp hact
      exact Release.replied_of_act hasks hrelease
  | releasing leaseId release outcome =>
      obtain ⟨_, hrelease, -⟩ := Option.map_eq_some_iff.mp hact
      exact Release.replied_of_act hasks hrelease
  | _ => contradiction

/-- While a reply is awaited, nothing else happens to the launch. -/
theorem Launch.replied_of_act {code : Launch}
    {result : Launch × List LaunchEvent} (hasks : code.asks.isSome)
    (hact : code.act named answer = some result) :
    ∃ reply, answer = .replied reply := by
  cases code with
  | awaitingGrant request grantObservedAt =>
      cases answer with
      | replied reply => exact ⟨reply, rfl⟩
      | _ => contradiction
  | supervising request child code =>
      obtain ⟨_, hsupervision, -⟩ := Option.map_eq_some_iff.mp hact
      exact Supervision.replied_of_act hasks hsupervision
  | releasing leaseId release outcome =>
      obtain ⟨_, hrelease, -⟩ := Option.map_eq_some_iff.mp hact
      exact Release.replied_of_act hasks hrelease
  | _ => contradiction

end Replied

/-! ## Replies which make a launch panic -/

/-- A reply was a setback at the very end of the range of the clock. -/
def PanicsOn (attempted : Option Instant)
    (reply : Except ClientError AgentResponse) : Prop :=
  (∀ lease, reply ≠ .ok (.leaseGranted lease)) ∧
    ∃ attemptedAt, attempted = some attemptedAt ∧
      attemptedAt.checkedAdd renewalRetryBackoff = none

theorem Supervision.panicsOn_of_act {named : Int32 → Bool}
    {request : LeaseRequest} {child : ChildPid} {code : Supervision}
    {reply : Except ClientError AgentResponse} {events : List LaunchEvent}
    (hact : code.act named request child (.replied reply) =
      some (.panicked, events)) :
    PanicsOn code.attemptedAt? reply := by
  cases code with
  | renewing renewal attemptedAt =>
      have hrenewed : (renewed renewal attemptedAt reply).1 = .panicked :=
        congrArg Prod.fst (Option.some.inj hact)
      unfold renewed at hrenewed
      split at hrenewed
      next => contradiction
      next hsetback =>
        split at hrenewed
        next => contradiction
        next hretry =>
          exact ⟨fun lease heq => hsetback lease heq, attemptedAt, rfl,
            checkedAdd_eq_none_of_retry hretry⟩
  | replacing renewal oldLeaseId release =>
      obtain ⟨⟨code, done⟩, -, heq⟩ := Option.map_eq_some_iff.mp hact
      cases code <;> cases heq
  | releasing leaseId release outcome =>
      obtain ⟨⟨code, done⟩, -, heq⟩ := Option.map_eq_some_iff.mp hact
      cases code <;> cases heq
  | _ => cases hact

theorem Launch.panicsOn_of_act {named : Int32 → Bool} {code : Launch}
    {reply : Except ClientError AgentResponse} {events : List LaunchEvent}
    (hact : code.act named (.replied reply) = some (.panicked, events)) :
    PanicsOn code.attemptedAt? reply := by
  cases code with
  | awaitingGrant request grantObservedAt =>
      have hgranted : (initiallyGranted request grantObservedAt
          (initialLease reply)).1 = .panicked :=
        congrArg Prod.fst (Option.some.inj hact)
      cases hlease : initialLease reply <;> rw [hlease] at hgranted <;>
        cases hgranted
  | supervising request child code =>
      obtain ⟨⟨reached, done⟩, hsupervision, heq⟩ :=
        Option.map_eq_some_iff.mp hact
      cases reached with
      | panicked => exact Supervision.panicsOn_of_act hsupervision
      | _ => cases heq
  | releasing leaseId release outcome =>
      obtain ⟨⟨reached, done⟩, -, heq⟩ := Option.map_eq_some_iff.mp hact
      cases reached <;> cases heq
  | _ => cases hact

/-! ## Any replies -/

/-- What is held has been granted, within the limit of a reading which is not
after any later attempt. -/
structure Holding.Bounded (clock : Instant) (trace : List LaunchEvent)
    (holding : Holding) : Prop where
  attempted : ∀ attemptedAt, holding.attemptedAt? = some attemptedAt →
    attemptedAt ≤ clock
  held : ∀ renewal, holding.renewal? = some renewal → ∃ lease base,
    .granted lease base ∈ trace ∧ lease.leaseId = renewal.leaseId ∧
      base ≤ clock ∧
      (∀ attemptedAt, holding.attemptedAt? = some attemptedAt →
        base ≤ attemptedAt) ∧
      renewal.Within base

theorem Holding.Step.bounded {clock later : Instant}
    {trace events : List LaunchEvent} {answer : LaunchAnswer}
    {before after : Holding} (hstep : Holding.Step answer events before after)
    (hbounded : before.Bounded clock trace) (hle : clock ≤ later)
    (hreading : ∀ reading, answer = .os (.now reading) → later = reading) :
    after.Bounded later (trace ++ events) := by
  cases hstep with
  | keep held =>
      refine ⟨by simp, ?_⟩
      intro renewal hrenewal
      obtain ⟨lease, base, hgranted, hid, hbase, -, hwithin⟩ :=
        hbounded.held renewal hrenewal
      exact ⟨lease, base, List.mem_append_left _ hgranted, hid,
        Nat.le_trans hbase hle, by simp, hwithin⟩
  | drop => exact ⟨by simp, by simp⟩
  | attempt held attemptedAt hanswer =>
      have hlater := hreading attemptedAt hanswer
      constructor
      · intro reading hattempted
        cases hattempted
        rw [hlater]
        exact Nat.le_refl _
      · intro renewal hrenewal
        obtain ⟨lease, base, hgranted, hid, hbase, -, hwithin⟩ :=
          hbounded.held renewal hrenewal
        have hbefore : base ≤ later := Nat.le_trans hbase hle
        refine ⟨lease, base, List.mem_append_left _ hgranted, hid, hbefore,
          ?_, hwithin⟩
        intro reading hattempted
        cases hattempted
        exact hlater ▸ hbefore
  | adopt held attemptedAt lease hanswer hevent =>
      refine ⟨by simp, ?_⟩
      intro renewal hrenewal
      cases hrenewal
      exact ⟨lease, attemptedAt, List.mem_append_right _ hevent, rfl,
        Nat.le_trans (hbounded.attempted attemptedAt rfl) hle, by simp,
        .adopt lease attemptedAt⟩
  | retry renewal attemptedAt renewAt hretry =>
      refine ⟨by simp, ?_⟩
      intro retried hrenewal
      cases hrenewal
      obtain ⟨lease, base, hgranted, hid, hbase, hattempted, hwithin⟩ :=
        hbounded.held renewal rfl
      exact ⟨lease, base, List.mem_append_left _ hgranted, hid,
        Nat.le_trans hbase hle, by simp,
        hwithin.retry (hattempted attemptedAt rfl) hretry⟩

namespace LaunchRun

variable {named : Int32 → Bool} {run next : LaunchRun}
  {answer : LaunchAnswer}

theorem clock_of_step (hstep : run.step named answer = some next) :
    run.clock ≤ next.clock ∧
      ∀ reading, answer = .os (.now reading) → next.clock = reading := by
  unfold step at hstep
  split at hstep
  next clock code events hobserved hact =>
    cases hstep
    unfold observed at hobserved
    split at hobserved
    next reading =>
      split at hobserved
      next hle =>
        cases hobserved
        exact ⟨hle, fun other heq => by cases heq; rfl⟩
      next => contradiction
    next hother =>
      cases hobserved
      exact ⟨Nat.le_refl _, fun reading heq => (hother reading heq).elim⟩
  next => contradiction

theorem bounded_of_run {start : Instant} {answers : List LaunchAnswer}
    (hrun : execute (step named) (called start) answers = some run) :
    run.code.holding.Bounded run.clock run.trace := by
  apply execute_guarded_invariant (fun _ _ => True)
    (fun run : LaunchRun => run.code.holding.Bounded run.clock run.trace)
    _ _ (guarded_of_forall fun _ _ _ => trivial) hrun
  · intro run answer next hbounded _ hstep
    obtain ⟨events, hact, htrace⟩ := step_cases hstep
    obtain ⟨hle, hreading⟩ := clock_of_step hstep
    rw [htrace]
    exact (Launch.holding_step hact).bounded hbounded hle hreading
  · exact ⟨by simp [called, Launch.holding, Launch.attemptedAt?],
      by simp [called, Launch.holding, Launch.renewal?]⟩

theorem panicsOn_of_step {reply : Except ClientError AgentResponse}
    (hstep : run.step named (.replied reply) = some next)
    (hpanicked : next.code = .panicked) :
    PanicsOn run.code.attemptedAt? reply := by
  obtain ⟨events, hact, -⟩ := step_cases hstep
  rw [hpanicked] at hact
  exact Launch.panicsOn_of_act hact

/-- What is held is within the limit of a reading before its grant, and no
grant, whatever is left of it, makes the launch panic. -/
structure WithinLimits (named : Int32 → Bool) (run : LaunchRun) : Prop where
  held : ∀ renewal, run.code.renewal? = some renewal → ∃ lease base,
    .granted lease base ∈ run.trace ∧ lease.leaseId = renewal.leaseId ∧
      base ≤ run.clock ∧ renewal.Within base
  panics : ∀ reply next, run.step named (.replied reply) = some next →
    next.code = .panicked → PanicsOn run.code.attemptedAt? reply

theorem withinLimits_of_run {start : Instant} {answers : List LaunchAnswer}
    (hrun : execute (step named) (called start) answers = some run) :
    run.WithinLimits named where
  held := by
    intro renewal hheld
    obtain ⟨lease, base, hgranted, hleaseId, hbase, -, hwithin⟩ :=
      (bounded_of_run hrun).held renewal hheld
    exact ⟨lease, base, hgranted, hleaseId, hbase, hwithin⟩
  panics := fun _ _ hstep hpanicked => panicsOn_of_step hstep hpanicked

end LaunchRun

end Eltanin.Cli
