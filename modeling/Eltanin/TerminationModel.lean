import Eltanin.LeaseModel

/-!
# Terminating a workload

Clock readings, process ids and exit statuses as `std` has them, and the
termination of a workload whose authorization has lapsed: `SIGTERM` to its
process group, a grace period in which the direct child is watched, and then
`SIGKILL`.  Whatever the operating system answers is an argument of the step.
-/

namespace Eltanin.Cli

open Eltanin.Core

/-! ## Clock readings -/

/-- A `std::time::Instant`, in nanoseconds; its seconds are an `i64`. -/
structure Instant where
  asNanos : ℕ
  inRange : asNanos < 9223372036854775808 * 1000000000
  deriving DecidableEq

namespace Instant

instance : LE Instant where
  le earlier later := earlier.asNanos ≤ later.asNanos

instance : LT Instant where
  lt earlier later := earlier.asNanos < later.asNanos

instance (earlier later : Instant) : Decidable (earlier ≤ later) :=
  inferInstanceAs (Decidable (earlier.asNanos ≤ later.asNanos))

instance (earlier later : Instant) : Decidable (earlier < later) :=
  inferInstanceAs (Decidable (earlier.asNanos < later.asNanos))

def checkedAdd (self : Instant) (duration : Duration) : Option Instant :=
  if hrange : duration.asNanos + self.asNanos <
      9223372036854775808 * 1000000000 then
    some ⟨duration.asNanos + self.asNanos, hrange⟩
  else none

/-- The operator `+`, which panics where `checkedAdd` has no answer. -/
def add (self : Instant) (duration : Duration) : Completion Instant :=
  match self.checkedAdd duration with
  | some sum => .returned sum
  | none => .panicked

def min (self other : Instant) : Instant :=
  if self ≤ other then self else other

def max (self other : Instant) : Instant :=
  if self ≤ other then other else self

end Instant

def terminationGrace : Duration := ⟨5000000000, by decide⟩

/-! ## The workload as its parent sees it -/

/-- A Unix wait status: an exit code, a terminating signal, or neither. -/
inductive ExitStatus where
  | exited (code : Int32)
  | signaled (signal : Int32)
  | neither
  deriving DecidableEq

/-- `Child::id` of a spawned process, which is a positive `pid_t`. -/
structure ChildPid where
  id : UInt32
  inRange : 0 < id.toNat ∧ id.toNat < 2147483648
  deriving DecidableEq

def pidFromU32 (pid : UInt32) : Option UInt32 :=
  if pid.toNat < 2147483648 ∧ pid ≠ 0 then some pid else none

/-- The process id of a child is never out of range. -/
theorem pidFromU32_eq (pid : ChildPid) : pidFromU32 pid.id = some pid.id := by
  have hne : pid.id ≠ 0 := by
    intro hzero
    have hpos := pid.inRange.1
    rw [hzero] at hpos
    exact lt_irrefl _ hpos
  exact if_pos ⟨pid.inRange.2, hne⟩

inductive GroupSignal where
  | term
  | kill
  deriving DecidableEq, Repr

/-- What a call to the operating system answers.  `waited none` is a child
which is still running, or a failure of the call; `sent` is a call of `kill`
which has returned, whatever it has answered. -/
inductive OsAnswer where
  | now (reading : Instant)
  | waited (status : Option ExitStatus)
  | sent
  | slept
  deriving DecidableEq

inductive TerminationEvent where
  | signalledGroup (signal : GroupSignal)
  | killedChild
  | reaped (status : ExitStatus)
  deriving DecidableEq

/-- Where `terminate_for_lapsed_authorization` is. -/
inductive Termination where
  | ungrouped
  | signalling
  | arming
  | timing (deadline : Instant)
  | waiting (deadline : Instant)
  | pausing (deadline : Instant)
  | killing
  | killingChild
  | reaping
  | returned (suppressed : Option ExitStatus)
  | panicked
  deriving DecidableEq

namespace Termination

def start (pid : ChildPid) : Termination :=
  match pidFromU32 pid.id with
  | none => .ungrouped
  | some _ => .signalling

def reaped : Option ExitStatus → List TerminationEvent
  | some status => [.reaped status]
  | none => []

def armed : Completion Instant → Termination
  | .returned deadline => .timing deadline
  | .panicked => .panicked

def act : Termination → OsAnswer →
    Option (Termination × List TerminationEvent)
  | .ungrouped, .waited status => some (.returned status, reaped status)
  | .signalling, .sent => some (.arming, [.signalledGroup .term])
  | .arming, .now reading =>
      some (armed (reading.add terminationGrace), [])
  | .timing deadline, .now reading =>
      if reading < deadline then some (.waiting deadline, [])
      else some (.killing, [])
  | .waiting _, .waited (some status) =>
      some (.returned (some status), [.reaped status])
  | .waiting deadline, .waited none => some (.pausing deadline, [])
  | .pausing deadline, .slept => some (.timing deadline, [])
  | .killing, .sent => some (.killingChild, [.signalledGroup .kill])
  -- `Child::kill` by itself, in case the group signal has missed the child
  | .killingChild, .sent => some (.reaping, [.killedChild])
  | .reaping, .waited status => some (.returned status, reaped status)
  | _, _ => none

/-! ## What a step can do -/

/-- The group is killed after the grace period, and not before. -/
inductive Stage where
  | ungrouped
  | sparing
  | killed
  | ended
  deriving DecidableEq, Repr

def stage : Termination → Stage
  | .ungrouped => .ungrouped
  | .signalling => .sparing
  | .arming => .sparing
  | .timing _ => .sparing
  | .waiting _ => .sparing
  | .pausing _ => .sparing
  | .killing => .sparing
  | .killingChild => .killed
  | .reaping => .killed
  | .returned _ => .ended
  | .panicked => .ended

theorem act_cases {code next : Termination} {answer : OsAnswer}
    {events : List TerminationEvent}
    (hact : code.act answer = some (next, events)) :
    (code.stage = .sparing ∧ next.stage = .sparing ∧
        (events = [] ∨ events = [.signalledGroup .term])) ∨
      (code = .killing ∧ next = .killingChild ∧
        events = [.signalledGroup .kill]) ∨
      (code = .killingChild ∧ next = .reaping ∧ events = [.killedChild]) ∨
      (next = .panicked ∧ events = []) ∨
      ∃ status, next = .returned status ∧ answer = .waited status ∧
        events = reaped status ∧
        (code = .ungrouped ∨ code = .reaping ∨
          ∃ deadline, code = .waiting deadline ∧ status.isSome) := by
  unfold act at hact
  split at hact
  case h_1 status =>
    cases hact
    simp
  case h_2 =>
    cases hact
    simp [stage]
  case h_3 reading =>
    generalize reading.add terminationGrace = sum at hact
    cases sum <;> cases hact <;> simp [armed, stage]
  case h_4 deadline reading =>
    split at hact <;> cases hact <;> simp [stage]
  case h_5 deadline status =>
    cases hact
    simp [reaped]
  case h_6 deadline =>
    cases hact
    simp [stage]
  case h_7 deadline =>
    cases hact
    simp [stage]
  case h_8 =>
    cases hact
    simp
  case h_9 =>
    cases hact
    simp
  case h_10 status =>
    cases hact
    simp
  case h_11 => contradiction

theorem act_ne_signalling {code next : Termination} {answer : OsAnswer}
    {events : List TerminationEvent}
    (hact : code.act answer = some (next, events)) :
    next ≠ .signalling ∧
      (code = .signalling →
        next = .arming ∧ events = [.signalledGroup .term]) := by
  unfold act at hact
  split at hact
  case h_3 reading =>
    generalize reading.add terminationGrace = sum at hact
    cases sum <;> cases hact <;> simp [armed]
  case h_4 deadline reading =>
    split at hact <;> cases hact <;> simp
  case h_11 => contradiction
  all_goals
    cases hact
    simp

/-- The process id of a child always names its group. -/
theorem start_eq_signalling (pid : ChildPid) : start pid = .signalling := by
  rw [start, pidFromU32_eq]

end Termination

end Eltanin.Cli
