import Eltanin.LapseTermination
import Eltanin.LaunchContract
import Eltanin.LaunchModel
import Eltanin.PartialExecution

/-!
# The trace of a launch

Every step of a launch is a run of the specification automaton from the
standing of the stage it leaves to the standing of the stage it reaches.  So
the trace of every launch has a run, whatever it is answered.
-/

namespace Eltanin.Cli

open Eltanin.Core Protocol LabelledRun PartialExecution

/-! ## Events which change nothing -/

theorem run_of_quiet {standing : Standing} {events : List LaunchEvent}
    (hquiet : ∀ event ∈ events, event.Quiet) :
    Run Permits standing events standing := by
  induction events with
  | nil => exact .nil standing
  | cons event rest ih =>
      obtain ⟨hevent, hrest⟩ := List.forall_mem_cons.mp hquiet
      exact .cons (.quiet standing event hevent) (ih hrest)

theorem Release.quiet_of_act {leaseId : LeaseId} {code reached : Release}
    {answer : LaunchAnswer} {events : List LaunchEvent}
    (hact : code.act leaseId answer = some (reached, events)) :
    ∀ event ∈ events, event.Quiet := by
  intro event hevent
  rcases events_of_act hact event hevent with ⟨reply, rfl⟩ | rfl
  · trivial
  · trivial

theorem quiet_forwardToChild (named : Int32 → Bool) (child : ChildPid)
    (signal : Int32) :
    ∀ event ∈ forwardToChild named child signal, event.Quiet := by
  unfold forwardToChild
  split
  · simp
  · split <;> simp [LaunchEvent.Quiet]

/-! ## Supervision -/

/-- The renewal is about the grant. -/
structure Renewal.Covers (renewal : Renewal) (grant : Grant) : Prop where
  leaseId : renewal.leaseId = grant.leaseId
  deadline : renewal.deadline = grant.deadline

theorem Renewal.covers_adopt (lease : LeaseView) (attemptedAt : Instant) :
    (Renewal.adopt lease attemptedAt).Covers ⟨lease, attemptedAt⟩ :=
  ⟨rfl, rfl⟩

def RunOutcome.ending : RunOutcome → Ending
  | .workloadExited status => .exited status
  | .authorizationLapsed _ => .terminated

/-- `SIGTERM` is the first thing which a termination does. -/
def Termination.standing (grant : Grant) : Termination → Standing
  | .signalling => .lapsed grant
  | _ => .stopped grant .terminated

def Supervision.Represents (standing : Standing) : Supervision → Prop
  | .polling renewal => ∃ grant, renewal.Covers grant ∧
      standing = .running grant
  | .draining renewal => ∃ grant, renewal.Covers grant ∧
      standing = .running grant
  | .checking renewal => ∃ grant, renewal.Covers grant ∧
      standing = .running grant
  | .attempting renewal => ∃ grant, renewal.Covers grant ∧
      standing = .running grant
  | .renewing renewal _ => ∃ grant, renewal.Covers grant ∧
      standing = .running grant
  | .replacing renewal _ _ => ∃ grant, renewal.Covers grant ∧
      standing = .running grant
  | .sleeping renewal => ∃ grant, renewal.Covers grant ∧
      standing = .running grant
  | .terminating leaseId code => ∃ grant : Grant, leaseId = grant.leaseId ∧
      standing = code.standing grant
  | .releasing _ _ outcome => standing = .released outcome.ending
  | .returned outcome => standing = .released outcome.ending
  | .panicked => True

namespace Supervision

variable {standing : Standing} {renewal : Renewal} {grant : Grant}

theorem represents_start (lease : LeaseView) (grantObservedAt : Instant) :
    (start lease grantObservedAt).Represents
      (.running ⟨lease, grantObservedAt⟩) :=
  ⟨_, Renewal.covers_adopt lease grantObservedAt, rfl⟩

theorem represents_replaced (hcovers : renewal.Covers grant)
    (oldLeaseId : LeaseId) (result : Release × List LaunchEvent) :
    (replaced renewal oldLeaseId result).1.Represents (.running grant) ∧
      (replaced renewal oldLeaseId result).2 = result.2 := by
  obtain ⟨release, events⟩ := result
  cases release <;> exact ⟨⟨grant, hcovers, rfl⟩, rfl⟩

theorem represents_released (leaseId : LeaseId) (outcome : RunOutcome)
    (result : Release × List LaunchEvent) :
    (released leaseId outcome result).1.Represents
        (.released outcome.ending) ∧
      (released leaseId outcome result).2 = result.2 := by
  obtain ⟨release, events⟩ := result
  cases release <;> exact ⟨rfl, rfl⟩

theorem run_checked (hcovers : renewal.Covers grant) (child : ChildPid)
    (now : Instant) :
    ∃ reached, Run Permits (.running grant) (checked child renewal now).2
        reached ∧
      (checked child renewal now).1.Represents reached := by
  unfold checked
  split
  next hpast =>
    rw [hcovers.deadline] at hpast
    refine ⟨.lapsed grant, .single (.lapse grant now hpast), grant,
      hcovers.leaseId, ?_⟩
    rw [Termination.start_eq_signalling]
    rfl
  next =>
    split
    · exact ⟨_, .nil _, grant, hcovers, rfl⟩
    · exact ⟨_, .nil _, grant, hcovers, rfl⟩

theorem run_renewed (hcovers : renewal.Covers grant) (attemptedAt : Instant)
    (reply : Except ClientError AgentResponse) :
    ∃ reached, Run Permits (.running grant)
        (renewed renewal attemptedAt reply).2 reached ∧
      (renewed renewal attemptedAt reply).1.Represents reached := by
  unfold renewed
  split
  next lease =>
    refine ⟨.running ⟨lease, attemptedAt⟩, ?_, _,
      Renewal.covers_adopt lease attemptedAt, rfl⟩
    rw [hcovers.leaseId]
    exact .cons (.renew grant lease attemptedAt) (.single (.replace _ _))
  next =>
    split
    · exact ⟨_, .nil _, grant, ⟨hcovers.leaseId, hcovers.deadline⟩, rfl⟩
    · exact ⟨_, .nil _, trivial⟩

theorem run_terminating (events : List TerminationEvent) :
    Run Permits (.stopped grant .terminated)
      (events.map LaunchEvent.terminating) (.stopped grant .terminated) := by
  induction events with
  | nil => exact .nil _
  | cons event rest ih => exact .cons (.kill grant event) ih

theorem run_terminated (grant : Grant) {code next : Termination}
    {answer : OsAnswer} {events : List TerminationEvent}
    (hact : code.act answer = some (next, events)) :
    ∃ reached, Run Permits (code.standing grant)
        (terminated grant.leaseId (next, events)).2 reached ∧
      (terminated grant.leaseId (next, events)).1.Represents reached := by
  obtain ⟨hnext, hfirst⟩ := Termination.act_ne_signalling hact
  have hrun : Run Permits (code.standing grant)
      (events.map LaunchEvent.terminating) (.stopped grant .terminated) := by
    by_cases hsignalling : code = .signalling
    · obtain ⟨-, hevents⟩ := hfirst hsignalling
      rw [hsignalling, hevents]
      exact .single (.terminate grant)
    · have hstanding : code.standing grant = .stopped grant .terminated := by
        cases code <;> first | rfl | contradiction
      rw [hstanding]
      exact run_terminating events
  cases next with
  | returned suppressed =>
      exact ⟨_, hrun.append (.single (.release grant .terminated)), rfl⟩
  | panicked => exact ⟨_, hrun, trivial⟩
  | signalling => contradiction
  | _ => exact ⟨_, hrun, grant, rfl, rfl⟩

variable {named : Int32 → Bool} {request : LeaseRequest} {child : ChildPid}

/-- A step of the supervision is a run of the automaton. -/
theorem Represents.act {code next : Supervision} {answer : LaunchAnswer}
    {events : List LaunchEvent} (hrepresents : code.Represents standing)
    (hact : code.act named request child answer = some (next, events)) :
    ∃ reached, Run Permits standing events reached ∧
      next.Represents reached := by
  unfold Supervision.act at hact
  split at hact
  case h_1 renewal status =>
    obtain ⟨grant, hcovers, hstanding⟩ := hrepresents
    cases hact
    rw [hstanding, hcovers.leaseId]
    exact ⟨_, .cons (.exit grant status) (.single (.release grant _)), rfl⟩
  case h_2 renewal =>
    cases hact
    exact ⟨_, .nil _, hrepresents⟩
  case h_3 renewal signals =>
    cases hact
    refine ⟨standing, run_of_quiet ?_, hrepresents⟩
    intro event hevent
    obtain ⟨signal, -, hsignal⟩ := List.mem_flatMap.mp hevent
    exact quiet_forwardToChild named child signal event hsignal
  case h_4 renewal now =>
    obtain ⟨grant, hcovers, hstanding⟩ := hrepresents
    have hrun := run_checked hcovers child now
    rw [Option.some.inj hact] at hrun
    rw [hstanding]
    exact hrun
  case h_5 renewal attemptedAt =>
    cases hact
    exact ⟨standing, .single (.quiet _ _ trivial), hrepresents⟩
  case h_6 renewal attemptedAt reply =>
    obtain ⟨grant, hcovers, hstanding⟩ := hrepresents
    have hrun := run_renewed hcovers attemptedAt reply
    rw [Option.some.inj hact] at hrun
    rw [hstanding]
    exact hrun
  case h_7 renewal oldLeaseId release =>
    obtain ⟨grant, hcovers, hstanding⟩ := hrepresents
    obtain ⟨result, hrelease, heq⟩ := Option.map_eq_some_iff.mp hact
    obtain ⟨hnext, hevents⟩ := represents_replaced hcovers oldLeaseId result
    rw [heq] at hnext hevents
    rw [hstanding, show events = result.2 from hevents]
    exact ⟨_, run_of_quiet (Release.quiet_of_act hrelease), hnext⟩
  case h_8 renewal =>
    cases hact
    exact ⟨_, .nil _, hrepresents⟩
  case h_9 leaseId code answer =>
    obtain ⟨grant, hleaseId, hstanding⟩ := hrepresents
    obtain ⟨⟨reached, signals⟩, htermination, heq⟩ :=
      Option.map_eq_some_iff.mp hact
    have hrun := run_terminated grant htermination
    rw [hleaseId] at heq
    rw [heq] at hrun
    rw [hstanding]
    exact hrun
  case h_10 leaseId release outcome =>
    obtain ⟨result, hrelease, heq⟩ := Option.map_eq_some_iff.mp hact
    obtain ⟨hnext, hevents⟩ := represents_released leaseId outcome result
    rw [heq] at hnext hevents
    rw [show standing = .released outcome.ending from hrepresents,
      show events = result.2 from hevents]
    exact ⟨_, run_of_quiet (Release.quiet_of_act hrelease), hnext⟩
  case h_11 => contradiction

end Supervision

/-! ## Exit codes -/

/-- The outcome has the exit code of a lapse exactly when that is how the
workload has ended, or when the workload chose it. -/
def LaunchOutcome.Reports (outcome : LaunchOutcome) (ending : Ending) : Prop :=
  outcome.code = 76 ↔ ending = .terminated ∨ ending = .exited (.exited 76)

theorem u8TryFrom_eq_iff (value : Int32) :
    (u8TryFrom value).getD 255 = 76 ↔ value = 76 := by
  unfold u8TryFrom
  split
  next hrange =>
    constructor
    · intro heq
      have hnat := congrArg UInt8.toNat heq
      rw [Option.getD_some, UInt8.toNat_ofNat_of_lt' (by
        rw [UInt8.size]
        omega)] at hnat
      have hint : value.toInt = (76 : Int32).toInt := by
        change _ = (76 : ℕ) at hnat
        change _ = (76 : ℤ)
        omega
      exact Int32.toInt_inj.mp hint
    · rintro rfl
      rfl
  next hrange =>
    constructor
    · intro heq
      contradiction
    · rintro rfl
      exact (hrange (by decide)).elim

theorem workloadSignalExitCode_ne (signal : UInt8) :
    workloadSignalExitCode signal ≠ 76 := by
  intro heq
  have hnat := congrArg UInt8.toNat heq
  rw [workloadSignalExitCode, UInt8.toNat_ofNat_of_lt' (by
    rw [UInt8.size]
    omega)] at hnat
  change _ = (76 : ℕ) at hnat
  omega

theorem reports_outcomeToExit (outcome : RunOutcome) :
    (outcomeToExit outcome).Reports outcome.ending := by
  cases outcome with
  | authorizationLapsed suppressed =>
      exact ⟨fun _ => Or.inl rfl, fun _ => rfl⟩
  | workloadExited status =>
      change statusToExitCode status = 76 ↔ _
      cases status with
      | exited code =>
          rw [statusToExitCode, u8TryFrom_eq_iff]
          simp [RunOutcome.ending]
      | signaled signal =>
          simp [statusToExitCode, workloadSignalExitCode_ne,
            RunOutcome.ending]
      | neither => simp [statusToExitCode, ExitCode.code, RunOutcome.ending]

theorem reports_unstarted {outcome : LaunchOutcome} (hne : outcome.code ≠ 76) :
    outcome.Reports .unstarted := by
  constructor
  · intro heq
    exact (hne heq).elim
  · rintro (heq | heq) <;> contradiction

theorem reports_failure {cause : LaunchFailure}
    (hne : cause.exitCode ≠ .authorizationLapsed) :
    (LaunchOutcome.failure cause).Reports .unstarted := by
  apply reports_unstarted
  rw [LaunchOutcome.code]
  generalize cause.exitCode = exitCode at hne
  cases exitCode <;> first | contradiction | decide

theorem exitCode_of_initialLease {reply : Except ClientError AgentResponse}
    {cause : LaunchFailure} (hfailed : initialLease reply = .error cause) :
    cause.exitCode ≠ .authorizationLapsed := by
  unfold initialLease at hfailed
  split at hfailed
  · cases hfailed
    exact ExitCode.noConfusion
  · contradiction
  next other _ =>
    cases other <;> cases hfailed <;> exact ExitCode.noConfusion

/-! ## The launch -/

namespace Launch

variable {standing : Standing}

def Represents (standing : Standing) : Launch → Prop
  | .resolving => standing = .fresh
  | .establishing _ => standing = .fresh
  | .connecting _ => standing = .prepared
  | .requesting _ => standing = .prepared
  | .awaitingGrant _ _ => standing = .prepared
  | .installing _ lease grantObservedAt =>
      standing = .holding ⟨lease, grantObservedAt⟩
  | .spawning _ lease grantObservedAt =>
      standing = .holding ⟨lease, grantObservedAt⟩
  | .supervising _ _ code => code.Represents standing
  | .releasing _ _ outcome =>
      standing = .released .unstarted ∧ outcome.Reports .unstarted
  | .tearingDown outcome => ∃ ending, outcome.Reports ending ∧
      (standing = .released ending ∨
        standing = .prepared ∧ ending = .unstarted)
  | .returned outcome => ∃ ending, outcome.Reports ending ∧
      (standing = .closed ending ∨ standing = .fresh ∧ ending = .unstarted)
  | .panicked => True

theorem represents_returned_early {cause : LaunchFailure}
    (hne : cause.exitCode ≠ .authorizationLapsed) :
    (returned (.failure cause)).Represents .fresh :=
  ⟨.unstarted, reports_failure hne, Or.inr ⟨rfl, rfl⟩⟩

theorem represents_tearingDown_early {cause : LaunchFailure}
    (hne : cause.exitCode ≠ .authorizationLapsed) :
    (tearingDown (.failure cause)).Represents .prepared :=
  ⟨.unstarted, reports_failure hne, Or.inr ⟨rfl, rfl⟩⟩

theorem represents_connected (request : LeaseRequest)
    (socketPath : Except ClientError String) :
    (connected request socketPath).Represents .prepared := by
  cases socketPath with
  | error error => exact represents_tearingDown_early ExitCode.noConfusion
  | ok path => rfl

theorem run_initiallyGranted (request : LeaseRequest)
    (grantObservedAt : Instant) (reply : Except ClientError AgentResponse) :
    ∃ reached,
      Run Permits .prepared (initiallyGranted request grantObservedAt
        (initialLease reply)).2 reached ∧
      (initiallyGranted request grantObservedAt
        (initialLease reply)).1.Represents reached := by
  cases hlease : initialLease reply with
  | error cause =>
      exact ⟨.prepared, .nil _,
        represents_tearingDown_early (exitCode_of_initialLease hlease)⟩
  | ok lease => exact ⟨_, .single (.grant lease grantObservedAt), rfl⟩

theorem run_giveUp {lease : LeaseView} {grantObservedAt : Instant}
    {outcome : LaunchOutcome} (hreports : outcome.Reports .unstarted) :
    ∃ reached,
      Run Permits (.holding ⟨lease, grantObservedAt⟩)
        [.releasing lease.leaseId] reached ∧
      (releasing lease.leaseId .start outcome).Represents reached :=
  ⟨_, .single (.giveUp ⟨lease, grantObservedAt⟩), rfl, hreports⟩

theorem represents_supervised {code : Supervision}
    (hrepresents : code.Represents standing) (events : List LaunchEvent)
    (request : LeaseRequest) (child : ChildPid) :
    (supervised request child (code, events)).1.Represents standing ∧
      (supervised request child (code, events)).2 = events := by
  cases code with
  | returned outcome =>
      exact ⟨⟨outcome.ending, reports_outcomeToExit outcome,
        Or.inl hrepresents⟩, rfl⟩
  | _ => exact ⟨hrepresents, rfl⟩

theorem represents_released {outcome : LaunchOutcome}
    (hreports : outcome.Reports .unstarted) (leaseId : LeaseId)
    (result : Release × List LaunchEvent) :
    (released leaseId outcome result).1.Represents (.released .unstarted) ∧
      (released leaseId outcome result).2 = result.2 := by
  obtain ⟨release, events⟩ := result
  cases release with
  | returned => exact ⟨⟨.unstarted, hreports, Or.inl rfl⟩, rfl⟩
  | _ => exact ⟨⟨rfl, hreports⟩, rfl⟩

theorem run_tornDown {outcome : LaunchOutcome} {later : List LaunchEvent}
    (hrepresents : (tearingDown outcome).Represents standing)
    (hquiet : ∀ event ∈ later, event.Quiet) :
    ∃ reached, Run Permits standing (.tornDown :: later) reached ∧
      (returned outcome).Represents reached := by
  obtain ⟨ending, hreports, hreleased | ⟨hprepared, hunstarted⟩⟩ := hrepresents
  · rw [hreleased]
    exact ⟨_, .cons (.close ending) (run_of_quiet hquiet), ending, hreports,
      Or.inl rfl⟩
  · rw [hprepared]
    rw [hunstarted] at hreports
    exact ⟨_, .cons .abandon (run_of_quiet hquiet), .unstarted, hreports,
      Or.inl rfl⟩

/-- A step of the launch is a run of the automaton. -/
theorem Represents.act {named : Int32 → Bool} {code next : Launch}
    {answer : LaunchAnswer} {events : List LaunchEvent}
    (hrepresents : code.Represents standing)
    (hact : code.act named answer = some (next, events)) :
    ∃ reached, Run Permits standing events reached ∧
      next.Represents reached := by
  unfold Launch.act at hact
  split at hact
  case h_1 request =>
    cases hact
    exact ⟨_, .nil _, hrepresents⟩
  case h_2 detail =>
    cases hact
    rw [show standing = .fresh from hrepresents]
    exact ⟨_, .nil _, represents_returned_early ExitCode.noConfusion⟩
  case h_3 request =>
    cases hact
    rw [show standing = .fresh from hrepresents]
    exact ⟨_, .single .establish, rfl⟩
  case h_4 reason =>
    cases hact
    rw [show standing = .fresh from hrepresents]
    exact ⟨_, .nil _, represents_returned_early ExitCode.noConfusion⟩
  case h_5 request socketPath =>
    cases hact
    rw [show standing = .prepared from hrepresents]
    exact ⟨_, .nil _, represents_connected request _⟩
  case h_6 request grantObservedAt =>
    cases hact
    exact ⟨standing, .single (.quiet _ _ trivial), hrepresents⟩
  case h_7 request grantObservedAt reply =>
    have hrun := run_initiallyGranted request grantObservedAt reply
    rw [Option.some.inj hact] at hrun
    rw [show standing = .prepared from hrepresents]
    exact hrun
  case h_8 request lease grantObservedAt =>
    cases hact
    exact ⟨_, .nil _, hrepresents⟩
  case h_9 lease grantObservedAt reason =>
    cases hact
    rw [show standing = .holding ⟨lease, grantObservedAt⟩ from hrepresents]
    exact run_giveUp (reports_failure ExitCode.noConfusion)
  case h_10 request lease grantObservedAt child =>
    cases hact
    rw [show standing = .holding ⟨lease, grantObservedAt⟩ from hrepresents]
    exact ⟨_, .single (.spawn _ child),
      Supervision.represents_start lease grantObservedAt⟩
  case h_11 lease grantObservedAt error =>
    cases hact
    rw [show standing = .holding ⟨lease, grantObservedAt⟩ from hrepresents]
    exact run_giveUp (reports_unstarted (by cases error <;> decide))
  case h_12 request child code =>
    obtain ⟨⟨reached, done⟩, hsupervision, heq⟩ :=
      Option.map_eq_some_iff.mp hact
    obtain ⟨final, hrun, hreached⟩ :=
      Supervision.Represents.act hrepresents hsupervision
    obtain ⟨hnext, hevents⟩ :=
      represents_supervised hreached done request child
    rw [heq] at hnext hevents
    rw [show events = done from hevents]
    exact ⟨final, hrun, hnext⟩
  case h_13 leaseId release outcome =>
    obtain ⟨hstanding, hreports⟩ := hrepresents
    obtain ⟨result, hrelease, heq⟩ := Option.map_eq_some_iff.mp hact
    obtain ⟨hnext, hevents⟩ := represents_released hreports leaseId result
    rw [heq] at hnext hevents
    rw [hstanding, show events = result.2 from hevents]
    exact ⟨_, run_of_quiet (Release.quiet_of_act hrelease), hnext⟩
  case h_14 outcome =>
    cases hact
    exact run_tornDown hrepresents (by simp)
  case h_15 outcome reason =>
    cases hact
    exact run_tornDown hrepresents (by simp [LaunchEvent.Quiet])
  case h_16 => contradiction

end Launch

/-! ## Runs -/

namespace LaunchRun

variable {named : Int32 → Bool} {clock : Instant} {final : LaunchRun}
  {answers : List LaunchAnswer}

/-- The trace of a launch has a run of the automaton, which ends where the
launch stands. -/
theorem exists_run
    (hrun : execute (step named) (called clock) answers = some final) :
    ∃ standing, Run Permits .fresh final.trace standing ∧
      final.code.Represents standing := by
  apply execute_guarded_invariant (fun _ _ => True)
    (fun run => ∃ standing, Run Permits .fresh run.trace standing ∧
      run.code.Represents standing)
    _ ⟨.fresh, .nil _, rfl⟩ (guarded_of_forall fun _ _ _ => trivial) hrun
  intro run answer next hinvariant _ hstep
  obtain ⟨standing, htrace, hrepresents⟩ := hinvariant
  obtain ⟨events, hact, hevents⟩ := step_cases hstep
  obtain ⟨reached, hmore, hreached⟩ := hrepresents.act hact
  exact ⟨reached, hevents ▸ htrace.append hmore, hreached⟩

end LaunchRun

end Eltanin.Cli
