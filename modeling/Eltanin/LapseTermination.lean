import Eltanin.PartialExecution
import Eltanin.TerminationModel

/-!
# What a termination leaves running

The members of the process group exit or leave it whenever they please, and may
change their credentials, while the supervisor watches the direct child alone.
When it sees the child's exit within the grace period it returns without
`SIGKILL`, and then nothing has happened to a member which ignores `SIGTERM`.
When it does kill the group, the kernel spares those members which it may not
signal, and the source does not look at what `kill` returns.
-/

namespace Eltanin.Cli

open Eltanin.Core PartialExecution

/-- A process which was in the group when the termination began: whether the
supervisor may signal it, and which signals it has been sent or has been spared
because the supervisor may not. -/
structure GroupProcess where
  exit : Option ExitStatus
  left : Bool
  signallable : Bool
  signals : List GroupSignal
  spared : List GroupSignal
  deriving DecidableEq

/-- A process is sent a signal if the supervisor may signal it. -/
def GroupProcess.receive (signal : GroupSignal) (self : GroupProcess) :
    GroupProcess :=
  if self.signallable then { self with signals := self.signals ++ [signal] }
  else { self with spared := self.spared ++ [signal] }

/-- `kill` of a group is for those who are still in it. -/
def GroupProcess.deliver (signal : GroupSignal) (self : GroupProcess) :
    GroupProcess :=
  if self.left ∨ self.exit.isSome then self else self.receive signal

def GroupProcess.exitWith (status : ExitStatus) (self : GroupProcess) :
    GroupProcess :=
  { self with exit := some (self.exit.getD status) }

def GroupProcess.leave (self : GroupProcess) : GroupProcess :=
  { self with left := true }

/-- The process has changed its credentials. -/
def GroupProcess.allow (signallable : Bool) (self : GroupProcess) :
    GroupProcess :=
  { self with signallable := signallable }

/-- It was spared `SIGKILL`, and has not been sent it in another way. -/
def GroupProcess.OutOfReach (self : GroupProcess) : Prop :=
  .kill ∈ self.spared ∧ .kill ∉ self.signals

instance (self : GroupProcess) : Decidable self.OutOfReach :=
  inferInstanceAs (Decidable (.kill ∈ self.spared ∧ .kill ∉ self.signals))

structure ProcessGroup where
  child : GroupProcess
  descendants : List GroupProcess
  deriving DecidableEq

namespace ProcessGroup

def members (self : ProcessGroup) : List GroupProcess :=
  self.child :: self.descendants

def map (self : ProcessGroup) (f : GroupProcess → GroupProcess) :
    ProcessGroup :=
  ⟨f self.child, self.descendants.map f⟩

def modify (self : ProcessGroup) (member : ℕ)
    (f : GroupProcess → GroupProcess) : ProcessGroup :=
  match member with
  | 0 => { self with child := f self.child }
  | index + 1 =>
      { self with descendants := self.descendants.modify index f }

/-- What an event of the supervisor does to the group. -/
def suffer (self : ProcessGroup) : TerminationEvent → ProcessGroup
  | .signalledGroup signal => self.map (GroupProcess.deliver signal)
  | .killedChild => { self with child := self.child.receive .kill }
  | .reaped _ => self

/-- Every process which has not left the group has exited or has been sent
`SIGKILL`. -/
def NoneRunning (self : ProcessGroup) : Prop :=
  ∀ process ∈ self.members, process.left = false →
    process.exit.isSome ∨ .kill ∈ process.signals

instance (self : ProcessGroup) : Decidable self.NoneRunning :=
  inferInstanceAs (Decidable (∀ process ∈ self.members,
    process.left = false → process.exit.isSome ∨ .kill ∈ process.signals))

end ProcessGroup

/-- A call of `terminate_for_lapsed_authorization`. -/
structure Lapse where
  code : Termination
  group : ProcessGroup
  clock : Instant
  deriving DecidableEq

inductive LapseAction where
  | code (answer : OsAnswer)
  | exits (member : ℕ) (status : ExitStatus)
  | leaves (member : ℕ)
  | changes (member : ℕ) (signallable : Bool)
  deriving DecidableEq

namespace Lapse

def called (pid : ChildPid) (group : ProcessGroup) (clock : Instant) :
    Lapse where
  code := .start pid
  group := group.map fun process =>
    { process with signals := [], spared := [] }
  clock := clock

/-- The clock does not run backwards, and a status is that of the child. -/
def Admits (self : Lapse) : OsAnswer → Prop
  | .now reading => self.clock ≤ reading
  | .waited (some status) => self.group.child.exit = some status
  | .waited none => True
  | .sent => True
  | .slept => True

instance (self : Lapse) : (answer : OsAnswer) →
    Decidable (self.Admits answer)
  | .now reading => inferInstanceAs (Decidable (self.clock ≤ reading))
  | .waited (some status) =>
      inferInstanceAs (Decidable (self.group.child.exit = some status))
  | .waited none => .isTrue trivial
  | .sent => .isTrue trivial
  | .slept => .isTrue trivial

def clockAfter (self : Lapse) : OsAnswer → Instant
  | .now reading => reading
  | _ => self.clock

/-- Nothing happens any more once the call has ended. -/
def step (self : Lapse) (action : LapseAction) : Option Lapse :=
  match self.code, action with
  | .returned _, _ => none
  | .panicked, _ => none
  | code, .code answer =>
      if self.Admits answer then
        (code.act answer).map fun result =>
          { code := result.1
            group := result.2.foldl ProcessGroup.suffer self.group
            clock := self.clockAfter answer }
      else none
  | _, .exits member status =>
      some { self with
        group := self.group.modify member (GroupProcess.exitWith status) }
  | _, .leaves member =>
      some { self with
        group := self.group.modify member GroupProcess.leave }
  | _, .changes member signallable =>
      some { self with
        group := self.group.modify member (GroupProcess.allow signallable) }

/-- When the supervisor sees the exit of the child within the grace period,
nobody else in the group is running; and when it has waited for the child after
the kill, nobody in the group is running whom the kill could not reach. -/
def SeesLastExit (self : Lapse) (action : LapseAction) : Prop :=
  match self.code, action with
  | .waiting _, .code (.waited (some _)) =>
      ∀ process ∈ self.group.members, process.left = false →
        process.exit.isSome
  | .reaping, .code (.waited _) =>
      ∀ process ∈ self.group.members, process.OutOfReach →
        process.left = false → process.exit.isSome
  | _, _ => True

end Lapse

/-! ## Members of the group -/

namespace ProcessGroup

variable {group : ProcessGroup} {Holds : GroupProcess → Prop}
  {f : GroupProcess → GroupProcess}

theorem forall_mem_modify (hkept : ∀ process, Holds process → Holds (f process))
    (hall : ∀ process ∈ group.members, Holds process) (member : ℕ) :
    ∀ process ∈ (group.modify member f).members, Holds process := by
  intro process hprocess
  cases member with
  | zero =>
      rcases List.mem_cons.mp hprocess with hchild | hold
      · rw [hchild]
        exact hkept _ (hall _ List.mem_cons_self)
      · exact hall process (List.mem_cons_of_mem _ hold)
  | succ index =>
      rcases List.mem_cons.mp hprocess with hchild | hmodified
      · rw [hchild]
        exact hall _ List.mem_cons_self
      · change process ∈ group.descendants.modify index f at hmodified
        obtain ⟨position, hposition⟩ := List.mem_iff_getElem?.mp hmodified
        rw [List.getElem?_modify, Option.map_eq_map,
          Option.map_eq_some_iff] at hposition
        obtain ⟨old, hold, heq⟩ := hposition
        have hmember := hall _
          (List.mem_cons_of_mem _ (List.mem_of_getElem? hold))
        rw [← heq]
        split
        · exact hkept _ hmember
        · exact hmember

theorem forall_mem_map
    (hall : ∀ process ∈ group.members, Holds (f process)) :
    ∀ process ∈ (group.map f).members, Holds process := by
  intro process hprocess
  have hmembers : (group.map f).members = group.members.map f := rfl
  rw [hmembers, List.mem_map] at hprocess
  obtain ⟨old, hold, heq⟩ := hprocess
  exact heq ▸ hall old hold

/-- Every process which has not left the group has exited, has been sent
`SIGKILL` or has been spared it. -/
def NoneMissed (self : ProcessGroup) : Prop :=
  ∀ process ∈ self.members, process.left = false →
    process.exit.isSome ∨ .kill ∈ process.signals ∨ .kill ∈ process.spared

theorem noneMissed_kill :
    (group.suffer (.signalledGroup .kill)).NoneMissed := by
  apply forall_mem_map
  intro process _ hleft
  rw [GroupProcess.deliver] at hleft ⊢
  by_cases hunreached : process.left = true ∨ process.exit.isSome = true
  · rw [if_pos hunreached] at hleft ⊢
    left
    simpa [hleft] using hunreached
  · rw [if_neg hunreached, GroupProcess.receive]
    right
    split <;> simp

theorem spared_of_events {events : List TerminationEvent}
    (hevents : events = [] ∨ events = [.signalledGroup .term])
    (hspared : ∀ process ∈ group.members, .kill ∉ process.signals) :
    ∀ process ∈ (events.foldl suffer group).members,
      .kill ∉ process.signals := by
  rcases hevents with hnone | hterm
  · rw [hnone]
    exact hspared
  · rw [hterm]
    apply forall_mem_map
    intro process hprocess
    have hkill := hspared process hprocess
    unfold GroupProcess.deliver GroupProcess.receive
    split
    · exact hkill
    · split
      · simpa using hkill
      · exact hkill

theorem NoneMissed.killedChild (hnone : group.NoneMissed) :
    (group.suffer .killedChild).NoneMissed := by
  intro process hprocess hleft
  rcases List.mem_cons.mp hprocess with hchild | hdescendant
  · right
    rw [hchild, suffer, GroupProcess.receive]
    split <;> simp
  · exact hnone process (List.mem_cons_of_mem _ hdescendant) hleft

/-- Once nobody is missed, those out of reach decide whether anybody is
running. -/
theorem NoneMissed.noneRunning_iff (hnone : group.NoneMissed) :
    group.NoneRunning ↔ ∀ process ∈ group.members, process.OutOfReach →
      process.left = false → process.exit.isSome := by
  constructor
  · intro hrunning process hprocess hreach hleft
    exact (hrunning process hprocess hleft).resolve_right hreach.2
  · intro hgone process hprocess hleft
    rcases hnone process hprocess hleft with hexit | hkill | hspared
    · exact Or.inl hexit
    · exact Or.inr hkill
    · by_cases hkill : .kill ∈ process.signals
      · exact Or.inr hkill
      · exact Or.inl (hgone process hprocess ⟨hspared, hkill⟩ hleft)

end ProcessGroup

/-! ## Steps -/

namespace Lapse

variable {self next : Lapse} {action : LapseAction}

/-- An action is one of the supervisor, or changes one process, where what it
has been sent and spared stays and its exit and departure are final. -/
theorem step_cases (hstep : self.step action = some next) :
    (∃ answer events, action = .code answer ∧ self.Admits answer ∧
        self.code.act answer = some (next.code, events) ∧
        next.group = events.foldl ProcessGroup.suffer self.group) ∨
      ∃ member f, next.code = self.code ∧
        next.group = self.group.modify member f ∧
        (∀ answer, action ≠ .code answer) ∧
        ∀ process, (f process).signals = process.signals ∧
          (f process).spared = process.spared ∧
          (process.exit.isSome → (f process).exit.isSome) ∧
          ((f process).left = false → process.left = false) := by
  unfold step at hstep
  split at hstep
  case h_1 => contradiction
  case h_2 => contradiction
  case h_3 answer _ _ =>
    split at hstep
    next hadmits =>
      obtain ⟨result, hact, heq⟩ := Option.map_eq_some_iff.mp hstep
      left
      exact ⟨answer, result.2, rfl, hadmits, by rw [hact, ← heq],
        by rw [← heq]⟩
    next => contradiction
  case h_4 member status _ _ =>
    right
    rw [← Option.some.inj hstep]
    refine ⟨member, GroupProcess.exitWith status, rfl, rfl, by simp, ?_⟩
    intro process
    exact ⟨rfl, rfl, fun _ => rfl, id⟩
  case h_5 member _ _ =>
    right
    rw [← Option.some.inj hstep]
    refine ⟨member, GroupProcess.leave, rfl, rfl, by simp, ?_⟩
    intro process
    exact ⟨rfl, rfl, id, fun hleft => by simp [GroupProcess.leave] at hleft⟩
  case h_6 member signallable _ _ =>
    right
    rw [← Option.some.inj hstep]
    refine ⟨member, GroupProcess.allow signallable, rfl, rfl, by simp, ?_⟩
    intro process
    exact ⟨rfl, rfl, id, id⟩

/-- Before the group is killed nobody has been sent `SIGKILL`, and afterwards
nobody has been missed. -/
def Progress (self : Lapse) : Prop :=
  match self.code.stage with
  | .ungrouped => False
  | .sparing => ∀ process ∈ self.group.members, .kill ∉ process.signals
  | .killed => self.group.NoneMissed
  | .ended => True

theorem progress_called (pid : ChildPid) (group : ProcessGroup)
    (clock : Instant) : (called pid group clock).Progress := by
  rw [Progress, called, Termination.start_eq_signalling]
  apply ProcessGroup.forall_mem_map
  simp

theorem Progress.step (hprogress : self.Progress)
    (hstep : self.step action = some next) : next.Progress := by
  rcases step_cases hstep with
    ⟨answer, events, -, -, hact, hgroup⟩ |
    ⟨member, f, hcode, hgroup, -, hchange⟩
  · unfold Progress at hprogress ⊢
    rcases Termination.act_cases hact with
      ⟨hcode, hnext, hevents⟩ | ⟨hcode, hnext, hevents⟩ |
      ⟨hcode, hnext, hevents⟩ | ⟨hnext, -⟩ | ⟨status, hnext, -⟩
    · rw [hcode] at hprogress
      rw [hnext, hgroup]
      exact ProcessGroup.spared_of_events hevents hprogress
    · rw [hnext, hgroup, hevents]
      exact ProcessGroup.noneMissed_kill
    · rw [hcode] at hprogress
      rw [hnext, hgroup, hevents]
      exact ProcessGroup.NoneMissed.killedChild hprogress
    · rw [hnext]
      trivial
    · rw [hnext]
      trivial
  · have hnone : self.group.NoneMissed →
        (self.group.modify member f).NoneMissed := by
      intro hall
      apply ProcessGroup.forall_mem_modify _ hall
      intro process hprocess hleft
      obtain ⟨hsignals, hspared, hexits, hleaves⟩ := hchange process
      rw [hsignals, hspared]
      exact (hprocess (hleaves hleft)).imp_left hexits
    have hspared : (∀ process ∈ self.group.members,
          .kill ∉ process.signals) →
        ∀ process ∈ (self.group.modify member f).members,
          .kill ∉ process.signals := by
      intro hall
      apply ProcessGroup.forall_mem_modify _ hall
      intro process hprocess
      rw [(hchange process).1]
      exact hprocess
    unfold Progress at hprogress ⊢
    rw [hcode, hgroup]
    cases hstage : self.code.stage with
    | ungrouped =>
        rw [hstage] at hprogress
        exact hprogress
    | sparing =>
        rw [hstage] at hprogress
        exact hspared hprogress
    | killed =>
        rw [hstage] at hprogress
        exact hnone hprogress
    | ended => trivial

theorem step_returned {suppressed : Option ExitStatus}
    (hcode : self.code = .returned suppressed) : self.step action = none := by
  unfold step
  rw [hcode]

theorem eq_of_execute_returned {final : Lapse} {actions : List LapseAction}
    {suppressed : Option ExitStatus}
    (hcode : self.code = .returned suppressed)
    (hrun : execute step self actions = some final) : final = self := by
  cases actions with
  | nil => exact (Option.some.inj hrun).symm
  | cons action rest =>
      obtain ⟨next, hstep, -⟩ := execute_cons_eq_some_iff.mp hrun
      rw [step_returned hcode] at hstep
      contradiction

/-- The call returns after the group has been killed, or when the exit of the
child is seen. -/
theorem Progress.returned (hprogress : self.Progress)
    (hstep : self.step action = some next)
    {suppressed : Option ExitStatus}
    (hreturned : next.code = .returned suppressed) :
    next.group = self.group ∧
      (self.code = .reaping ∧ self.group.NoneMissed ∧
          action = .code (.waited suppressed) ∨
        ∃ deadline status, self.code = .waiting deadline ∧
          action = .code (.waited (some status))) := by
  rcases step_cases hstep with
    ⟨answer, events, haction, -, hact, hgroup⟩ |
    ⟨member, f, hcode, -, -, -⟩
  · unfold Progress at hprogress
    rcases Termination.act_cases hact with
      ⟨-, hnext, -⟩ | ⟨-, hnext, -⟩ | ⟨-, hnext, -⟩ | ⟨hnext, -⟩ |
      ⟨status, hnext, hanswer, hevents, hcases⟩
    · rw [hreturned] at hnext
      contradiction
    · rw [hreturned] at hnext
      contradiction
    · rw [hreturned] at hnext
      contradiction
    · rw [hreturned] at hnext
      contradiction
    · constructor
      · rw [hgroup, hevents]
        cases status <;> rfl
      rw [hreturned, Termination.returned.injEq] at hnext
      rcases hcases with hungrouped | hreaping | ⟨deadline, hwaiting, hsome⟩
      · rw [hungrouped] at hprogress
        exact hprogress.elim
      · rw [hreaping] at hprogress
        exact Or.inl ⟨hreaping, hprogress, by rw [haction, hanswer, hnext]⟩
      · obtain ⟨found, hfound⟩ := Option.isSome_iff_exists.mp hsome
        exact Or.inr ⟨deadline, found, hwaiting,
          by rw [haction, hanswer, hfound]⟩
  · rw [hcode] at hreturned
    rw [step_returned hreturned] at hstep
    contradiction

theorem code_of_exit_seen {deadline : Instant} {status : ExitStatus}
    (hcode : self.code = .waiting deadline)
    (hstep : self.step (.code (.waited (some status))) = some next) :
    next.code = .returned (some status) := by
  rcases step_cases hstep with
    ⟨answer, events, haction, -, hact, -⟩ | ⟨-, -, -, -, hnot, -⟩
  · rw [hcode, ← LapseAction.code.inj haction] at hact
    simp only [Termination.act, Option.some.injEq, Prod.mk.injEq] at hact
    exact hact.1.symm
  · exact (hnot _ rfl).elim

theorem code_of_reaped {status : Option ExitStatus}
    (hcode : self.code = .reaping)
    (hstep : self.step (.code (.waited status)) = some next) :
    next.code = .returned status := by
  rcases step_cases hstep with
    ⟨answer, events, haction, -, hact, -⟩ | ⟨-, -, -, -, hnot, -⟩
  · rw [hcode, ← LapseAction.code.inj haction] at hact
    simp only [Termination.act, Option.some.injEq, Prod.mk.injEq] at hact
    exact hact.1.symm
  · exact (hnot _ rfl).elim

theorem noneRunning_of_guarded {final : Lapse} {actions : List LapseAction}
    (hprogress : self.Progress)
    (hguarded : Guarded SeesLastExit step self actions)
    (hrun : execute step self actions = some final)
    {suppressed : Option ExitStatus}
    (hinitial : self.code ≠ .returned suppressed)
    (hreturned : final.code = .returned suppressed) :
    final.group.NoneRunning := by
  have hinvariant : final.Progress ∧
      (final.code = .returned suppressed → final.group.NoneRunning) := by
    apply execute_guarded_invariant SeesLastExit
      (fun state => state.Progress ∧
        (state.code = .returned suppressed → state.group.NoneRunning))
      _ ⟨hprogress, fun hcode => (hinitial hcode).elim⟩ hguarded hrun
    intro state action next hstate hguard hstep
    refine ⟨hstate.1.step hstep, fun hnext => ?_⟩
    obtain ⟨hgroup, ⟨hcode, hnone, haction⟩ |
      ⟨deadline, status, hcode, haction⟩⟩ := hstate.1.returned hstep hnext
    · unfold SeesLastExit at hguard
      rw [hcode, haction] at hguard
      rw [hgroup]
      exact hnone.noneRunning_iff.mpr hguard
    · unfold SeesLastExit at hguard
      rw [hcode, haction] at hguard
      intro process hprocess hleft
      rw [hgroup] at hprocess
      exact Or.inl (hguard process hprocess hleft)
  exact hinvariant.2 hreturned

/-- The group at the end is the one at the step with which the call has
returned. -/
theorem noneRunning_of_last {final : Lapse}
    {actions : List LapseAction} (hprogress : self.Progress)
    (hstep : self.step action = some next)
    {suppressed : Option ExitStatus}
    (hreturned : next.code = .returned suppressed)
    (hrest : execute step next actions = some final)
    (hnone : final.group.NoneRunning) : self.group.NoneRunning := by
  rw [eq_of_execute_returned hreturned hrest,
    (hprogress.returned hstep hreturned).1] at hnone
  exact hnone

theorem guarded_of_noneRunning {final : Lapse} {actions : List LapseAction}
    (hprogress : self.Progress)
    (hrun : execute step self actions = some final)
    (hnone : final.group.NoneRunning) :
    Guarded SeesLastExit step self actions := by
  induction actions generalizing self with
  | nil => trivial
  | cons action rest ih =>
      obtain ⟨next, hstep, hrest⟩ := execute_cons_eq_some_iff.mp hrun
      constructor
      · unfold SeesLastExit
        split
        next deadline status hcode =>
          -- nobody has been killed yet
          have hlast := noneRunning_of_last hprogress hstep
            (code_of_exit_seen hcode hstep) hrest hnone
          unfold Progress at hprogress
          rw [hcode] at hprogress
          intro process hprocess hleft
          exact (hlast process hprocess hleft).resolve_right
            (hprogress process hprocess)
        next status hcode =>
          have hlast := noneRunning_of_last hprogress hstep
            (code_of_reaped hcode hstep) hrest hnone
          unfold Progress at hprogress
          rw [hcode] at hprogress
          exact (ProcessGroup.NoneMissed.noneRunning_iff hprogress).mp hlast
        next => trivial
      · intro other hother
        rw [hstep, Option.some.injEq] at hother
        exact hother ▸ ih (hprogress.step hstep) hrest

/-- A termination which returns leaves nobody running exactly when nobody else
was running at the moment the exit of the child was seen in time, and nobody
out of reach when the child was reaped after the kill. -/
theorem noneRunning_iff_seesLastExit (pid : ChildPid) (group : ProcessGroup)
    (clock : Instant) (actions : List LapseAction) {final : Lapse}
    {suppressed : Option ExitStatus}
    (hrun : execute step (called pid group clock) actions = some final)
    (hreturned : final.code = .returned suppressed) :
    final.group.NoneRunning ↔
      Guarded SeesLastExit step (called pid group clock) actions := by
  have hprogress := progress_called pid group clock
  constructor
  · intro hnone
    exact guarded_of_noneRunning hprogress hrun hnone
  · intro hguarded
    apply noneRunning_of_guarded hprogress hguarded hrun _ hreturned
    rw [called, Termination.start_eq_signalling]
    simp

/-- The child and one descendant, both of them in the group and running. -/
def sampleGroup : ProcessGroup :=
  ⟨⟨none, false, true, [], []⟩, [⟨none, false, true, [], []⟩]⟩

def samplePid : ChildPid := ⟨4242, by decide⟩

def sampleReading (seconds : UInt8) : Instant where
  asNanos := seconds.toNat * 1000000000
  inRange := by
    have hlt := seconds.toNat_lt
    omega

/-- Nobody reacts to `SIGTERM`, and the grace period passes. -/
def killedTermination : List LapseAction :=
  [.code .sent, .code (.now (sampleReading 10)),
    .code (.now (sampleReading 15)), .code .sent, .code .sent,
    .exits 0 (.signaled 9), .code (.waited (some (.signaled 9)))]

theorem noneRunning_killedTermination :
    ∃ final,
      execute step
        (called samplePid sampleGroup (sampleReading 10))
        killedTermination = some final ∧
      (final.group.NoneRunning ↔
        Guarded SeesLastExit step
          (called samplePid sampleGroup (sampleReading 10))
          killedTermination) ∧
      final.group.NoneRunning :=
  ⟨_, rfl, noneRunning_iff_seesLastExit samplePid sampleGroup
    (sampleReading 10) killedTermination rfl rfl, by decide⟩

/-- The child exits on `SIGTERM`, and the descendant goes on. -/
def survivedTermination : List LapseAction :=
  [.code .sent, .exits 0 (.signaled 15),
    .code (.now (sampleReading 10)),
    .code (.now (sampleReading 10)),
    .code (.waited (some (.signaled 15)))]

theorem not_noneRunning_survivedTermination :
    ∃ final,
      execute step
        (called samplePid sampleGroup (sampleReading 10))
        survivedTermination = some final ∧
      final.code = .returned (some (.signaled 15)) ∧
      ¬final.group.NoneRunning :=
  ⟨_, rfl, by decide, by decide⟩

end Lapse

end Eltanin.Cli
