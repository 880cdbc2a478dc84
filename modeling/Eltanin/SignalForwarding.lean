import Eltanin.LaunchObligations

/-!
# Signals on their way to the workload

A thread of its own puts the signals which it receives on a channel, and the
poll loop takes all of them off it once it has seen that the child is running.
Between any two steps of the loop further signals may arrive.  So what has been
passed on is an initial part of what has arrived.  The loop has two places
where it waits for the child, and nothing is sent to anybody after either of
them has seen its exit.
-/

namespace Eltanin.Cli

open Eltanin.Core Protocol PartialExecution

/-! ## What happens to the child and to the signals -/

namespace LaunchEvent

def forwarded? : LaunchEvent → Option Int32
  | .forwarded signal => some signal
  | _ => none

/-- A signal has been taken off the channel. -/
def IsSignal : LaunchEvent → Prop
  | .forwarded _ => True
  | .dropped _ => True
  | _ => False

/-- The process id of the child, or its group, is sent a signal. -/
def kills : LaunchEvent → Bool
  | .forwarded _ => true
  | .terminating (.signalledGroup _) => true
  | .terminating .killedChild => true
  | _ => false

end LaunchEvent

/-- The signals which have been passed on to the child. -/
def forwardedSignals (trace : List LaunchEvent) : List Int32 :=
  trace.filterMap LaunchEvent.forwarded?

variable {named : Int32 → Bool} {request : LeaseRequest} {child : ChildPid}

theorem forwardedSignals_append (before after : List LaunchEvent) :
    forwardedSignals (before ++ after) =
      forwardedSignals before ++ forwardedSignals after :=
  List.filterMap_append

theorem forwardedSignals_eq_nil {events : List LaunchEvent}
    (hevents : ∀ event ∈ events, event.ofPoll = false) :
    forwardedSignals events = [] := by
  rw [forwardedSignals, List.filterMap_eq_nil_iff]
  intro event hevent
  have hnone := hevents event hevent
  cases event <;> first | rfl | contradiction

/-- The process id of a child always names a process. -/
theorem forwardToChild_eq (named : Int32 → Bool) (child : ChildPid)
    (signal : Int32) :
    forwardToChild named child signal =
      if named signal then [.forwarded signal] else [.dropped signal] := by
  rw [forwardToChild, pidFromU32_eq]

theorem forwardedSignals_flatMap (signals : List Int32) :
    forwardedSignals (signals.flatMap (forwardToChild named child)) =
      signals.filter named := by
  induction signals with
  | nil => rfl
  | cons signal rest ih =>
      rw [List.flatMap_cons, forwardedSignals_append, ih, forwardToChild_eq,
        List.filter_cons]
      split <;> rfl

theorem isSignal_forwardToChild (signals : List Int32) :
    ∀ event ∈ signals.flatMap (forwardToChild named child),
      event.IsSignal := by
  intro event hevent
  obtain ⟨signal, -, hforward⟩ := List.mem_flatMap.mp hevent
  rw [forwardToChild_eq] at hforward
  split at hforward <;> rw [List.mem_singleton.mp hforward] <;> trivial

/-! ## The loop and the channel -/

/-- A call of `supervise` and the channel which it takes signals from. -/
structure SignalledCall where
  code : Supervision
  channel : List Int32
  trace : List LaunchEvent

inductive SignalledAction where
  | arrives (signal : Int32)
  | answered (answer : LaunchAnswer)

def SignalledAction.arrival? : SignalledAction → Option Int32
  | .arrives signal => some signal
  | .answered _ => none

def arrivals (actions : List SignalledAction) : List Int32 :=
  actions.filterMap SignalledAction.arrival?

namespace SignalledCall

/-- The handlers have been installed before the workload was spawned, so
signals may be waiting already. -/
def called (lease : LeaseView) (grantObservedAt : Instant)
    (queued : List Int32) : SignalledCall :=
  ⟨.start lease grantObservedAt, queued, []⟩

/-- `try_iter` takes everything which is on the channel, in its order. -/
def received (call : SignalledCall) : LaunchAnswer → Option (List Int32)
  | .drained signals => if signals = call.channel then some [] else none
  | _ => some call.channel

def step (named : Int32 → Bool) (request : LeaseRequest) (child : ChildPid)
    (call : SignalledCall) : SignalledAction → Option SignalledCall
  | .arrives signal =>
      some { call with channel := call.channel ++ [signal] }
  | .answered answer =>
      match call.received answer,
          call.code.act named request child answer with
      | some channel, some (code, events) =>
          some ⟨code, channel, call.trace ++ events⟩
      | _, _ => none

variable {call next state final : SignalledCall}
  {action : SignalledAction} {answer : LaunchAnswer}
  {actions after : List SignalledAction}

theorem step_answered (hstep :
    call.step named request child (.answered answer) = some next) :
    ∃ events, call.received answer = some next.channel ∧
      call.code.act named request child answer = some (next.code, events) ∧
      next.trace = call.trace ++ events := by
  simp only [step] at hstep
  split at hstep
  next channel code events hreceived hact =>
    cases hstep
    exact ⟨events, hreceived, hact, rfl⟩
  next => contradiction

theorem received_drained {signals channel : List Int32}
    (hreceived : call.received (.drained signals) = some channel) :
    signals = call.channel ∧ channel = [] := by
  simp only [received, Option.ite_none_right_eq_some,
    Option.some.injEq] at hreceived
  exact ⟨hreceived.1, hreceived.2.symm⟩

theorem received_of_ne {channel : List Int32}
    (hanswer : ∀ signals, answer ≠ .drained signals)
    (hreceived : call.received answer = some channel) :
    channel = call.channel := by
  unfold received at hreceived
  split at hreceived
  next signals => exact absurd rfl (hanswer signals)
  next =>
    cases hreceived
    rfl

theorem trace_of_run (hrun : execute (step named request child) state after =
    some final) : state.trace <+: final.trace := by
  apply execute_guarded_invariant (fun _ _ => True)
    (fun call : SignalledCall => state.trace <+: call.trace)
    _ (List.prefix_refl _) (guarded_of_forall fun _ _ _ => trivial) hrun
  intro call action next hbefore _ hstep
  cases action with
  | arrives signal =>
      cases hstep
      exact hbefore
  | answered answer =>
      obtain ⟨events, -, -, htrace⟩ := step_answered hstep
      rw [htrace]
      exact hbefore.trans (List.prefix_append _ _)

/-! ## In the order of their arrival -/

/-- What a step takes off the channel has been there first, and it passes on
what has a name. -/
theorem drained_of_step
    (hstep : call.step named request child action = some next) :
    ∃ drained,
      call.channel ++ action.arrival?.toList = drained ++ next.channel ∧
        forwardedSignals next.trace =
          forwardedSignals call.trace ++ drained.filter named := by
  cases action with
  | arrives signal =>
      cases hstep
      exact ⟨[], rfl, (List.append_nil _).symm⟩
  | answered answer =>
      obtain ⟨events, hreceived, hact, htrace⟩ := step_answered hstep
      rw [htrace, forwardedSignals_append]
      rcases Supervision.act_cases hact with
        ⟨renewal, signals, -, rfl, -, rfl⟩ |
        ⟨renewal, attemptedAt, -, rfl, -, rfl⟩ | ⟨hanswer, hevents⟩
      · obtain ⟨hall, hempty⟩ := received_drained hreceived
        refine ⟨signals, ?_, ?_⟩
        · rw [hall, hempty]
          rfl
        · rw [forwardedSignals_flatMap]
      · have hkept := received_of_ne (by rintro signals ⟨⟩) hreceived
        exact ⟨[], by rw [hkept]; exact List.append_nil _, rfl⟩
      · have hkept := received_of_ne hanswer hreceived
        rw [forwardedSignals_eq_nil hevents]
        exact ⟨[], by rw [hkept]; exact List.append_nil _, rfl⟩

theorem drained_of_run
    (hrun : execute (step named request child) call actions = some final) :
    ∃ drained,
      call.channel ++ arrivals actions = drained ++ final.channel ∧
        forwardedSignals final.trace =
          forwardedSignals call.trace ++ drained.filter named := by
  induction actions generalizing call with
  | nil =>
      cases hrun
      exact ⟨[], List.append_nil _, (List.append_nil _).symm⟩
  | cons action rest ih =>
      obtain ⟨next, hstep, hrest⟩ := execute_cons_eq_some_iff.mp hrun
      obtain ⟨first, hfirst, hpassed⟩ := drained_of_step hstep
      obtain ⟨later, hlater, hfinal⟩ := ih hrest
      have harrivals : arrivals (action :: rest) =
          action.arrival?.toList ++ arrivals rest := by
        cases action <;> rfl
      refine ⟨first ++ later, ?_, ?_⟩
      · rw [harrivals, ← List.append_assoc, hfirst, List.append_assoc, hlater,
          List.append_assoc]
      · rw [hfinal, hpassed, List.filter_append, List.append_assoc]

/-! ## In the iteration which has seen the child running -/

/-- The next thing the loop does is to pass on what is on the channel, also
what has arrived in the meantime. -/
theorem passed_of_draining {renewal : Renewal}
    (hrun : execute (step named request child) state after = some final)
    (hdraining : state.code = .draining renewal)
    (hgoes : ∃ answer, .answered answer ∈ after) :
    ∃ passed, state.trace ++ passed <+: final.trace ∧
      (∀ event ∈ passed, event.IsSignal) ∧
        state.channel.filter named <+: forwardedSignals passed := by
  induction after generalizing state with
  | nil =>
      obtain ⟨answer, hmem⟩ := hgoes
      contradiction
  | cons action rest ih =>
      obtain ⟨next, hstep, hrest⟩ := execute_cons_eq_some_iff.mp hrun
      cases action with
      | arrives signal =>
          cases hstep
          obtain ⟨answer, hmem⟩ := hgoes
          have hmem : .answered answer ∈ rest := by simpa using hmem
          obtain ⟨passed, htrace, hsignals, hpassed⟩ :=
            ih hrest hdraining ⟨answer, hmem⟩
          refine ⟨passed, htrace, hsignals, List.IsPrefix.trans ?_ hpassed⟩
          rw [List.filter_append]
          exact List.prefix_append _ _
      | answered answer =>
          obtain ⟨events, hreceived, hact, htrace⟩ := step_answered hstep
          rw [hdraining] at hact
          cases answer with
          | drained signals =>
              obtain ⟨-, rfl⟩ := Prod.mk.inj (Option.some.inj hact)
              obtain ⟨hall, -⟩ := received_drained hreceived
              refine ⟨_, htrace ▸ trace_of_run hrest,
                isSignal_forwardToChild signals, ?_⟩
              rw [forwardedSignals_flatMap, hall]
          | _ => contradiction

end SignalledCall

/-! ## Nobody is signalled after the exit of the child -/

/-- The child has been waited for, or is not waited for any more. -/
def Supervision.Over : Supervision → Prop
  | .releasing _ _ _ => True
  | .returned _ => True
  | _ => False

/-- Once the exit of the child has been seen, the lease is all that is left. -/
theorem kills_of_exit {event : LaunchEvent} (hevent : event.kills = false)
    (leaseId : LeaseId) :
    ∀ done ∈ [event, .releasing leaseId], done.kills = false :=
  List.forall_mem_cons.mpr ⟨hevent, List.forall_mem_singleton.mpr rfl⟩

theorem Supervision.over_of_waited {code next : Supervision}
    {status : ExitStatus} {events : List LaunchEvent}
    (hact : code.act named request child (.os (.waited (some status))) =
      some (next, events)) :
    next.Over ∧ ∀ event ∈ events, event.kills = false := by
  cases code with
  | polling renewal =>
      cases hact
      exact ⟨trivial, kills_of_exit rfl renewal.leaseId⟩
  | terminating leaseId code =>
      cases code with
      | ungrouped =>
          cases hact
          exact ⟨trivial, kills_of_exit rfl leaseId⟩
      | waiting deadline =>
          cases hact
          exact ⟨trivial, kills_of_exit rfl leaseId⟩
      | reaping =>
          cases hact
          exact ⟨trivial, kills_of_exit rfl leaseId⟩
      | _ => contradiction
  | replacing renewal oldLeaseId release => cases release <;> contradiction
  | releasing leaseId release outcome => cases release <;> contradiction
  | _ => contradiction

theorem Supervision.Over.step {code next : Supervision}
    {answer : LaunchAnswer} {events : List LaunchEvent} (hover : code.Over)
    (hact : code.act named request child answer = some (next, events)) :
    next.Over ∧ ∀ event ∈ events, event.kills = false := by
  cases code with
  | releasing leaseId release outcome =>
      obtain ⟨⟨release, done⟩, hrelease, heq⟩ := Option.map_eq_some_iff.mp hact
      have hdone : ∀ event ∈ done, event.kills = false := by
        intro event hevent
        rcases Release.events_of_act hrelease event hevent with
          ⟨reply, rfl⟩ | rfl
        · rfl
        · rfl
      cases release <;> cases heq <;> exact ⟨trivial, hdone⟩
  | returned outcome => contradiction
  | _ => contradiction

namespace SignalledCall

variable {call next state final : SignalledCall}
  {actions after : List SignalledAction}

theorem unharmed_of_over
    (hrun : execute (step named request child) call actions = some final)
    (hover : call.code.Over) :
    ∃ later, final.trace = call.trace ++ later ∧
      ∀ event ∈ later, event.kills = false := by
  induction actions generalizing call with
  | nil =>
      cases hrun
      exact ⟨[], (List.append_nil _).symm, by simp⟩
  | cons action rest ih =>
      obtain ⟨next, hstep, hrest⟩ := execute_cons_eq_some_iff.mp hrun
      cases action with
      | arrives signal =>
          cases hstep
          obtain ⟨later, hlater, hunharmed⟩ := ih hrest hover
          exact ⟨later, hlater, hunharmed⟩
      | answered answer =>
          obtain ⟨events, -, hact, htrace⟩ := step_answered hstep
          obtain ⟨hnext, hevents⟩ := hover.step hact
          obtain ⟨later, hlater, hunharmed⟩ := ih hrest hnext
          refine ⟨events ++ later, ?_, ?_⟩
          · rw [hlater, htrace, List.append_assoc]
          · exact List.forall_mem_append.mpr ⟨hevents, hunharmed⟩

/-- Signals are passed on once each and in their order, all those which have
been waiting when the child was seen running at once, and none when it was seen
to have exited. -/
structure Forwards (named : Int32 → Bool) (request : LeaseRequest)
    (child : ChildPid) (start : SignalledCall)
    (actions : List SignalledAction) (final : SignalledCall) : Prop where
  ordered : ∃ drained,
    start.channel ++ arrivals actions = drained ++ final.channel ∧
      forwardedSignals final.trace = drained.filter named
  prompt : ∀ before after state renewal,
    actions = before ++ .answered (.os (.waited none)) :: after →
      execute (step named request child) start before = some state →
      state.code = .polling renewal →
      (∃ answer, .answered answer ∈ after) →
        ∃ passed, state.trace ++ passed <+: final.trace ∧
          (∀ event ∈ passed, event.IsSignal) ∧
            state.channel.filter named <+: forwardedSignals passed
  harmless : ∀ before after status state,
    actions = before ++ .answered (.os (.waited (some status))) :: after →
      execute (step named request child) start before = some state →
        ∃ later, final.trace = state.trace ++ later ∧
          ∀ event ∈ later, event.kills = false

theorem signals_forwarded (named : Int32 → Bool) (request : LeaseRequest)
    (child : ChildPid) (lease : LeaseView) (grantObservedAt : Instant)
    (queued : List Int32) (actions : List SignalledAction)
    {final : SignalledCall}
    (hrun : execute (step named request child)
      (called lease grantObservedAt queued) actions = some final) :
    Forwards named request child (called lease grantObservedAt queued)
      actions final where
  ordered := drained_of_run hrun
  prompt := by
    intro before after state renewal hsplit hbefore hpolling hgoes
    rw [hsplit, execute_append_eq_some_iff] at hrun
    obtain ⟨middle, hmiddle, hrun⟩ := hrun
    obtain rfl := Option.some.inj (hmiddle.symm.trans hbefore)
    obtain ⟨next, hstep, hrest⟩ := execute_cons_eq_some_iff.mp hrun
    obtain ⟨events, hreceived, hact, htrace⟩ := step_answered hstep
    rw [hpolling] at hact
    obtain ⟨hdraining, rfl⟩ := Prod.mk.inj (Option.some.inj hact)
    rw [List.append_nil] at htrace
    have hkept := received_of_ne (by rintro signals ⟨⟩) hreceived
    rw [← htrace, ← hkept]
    exact passed_of_draining hrest hdraining.symm hgoes
  harmless := by
    intro before after status state hsplit hbefore
    rw [hsplit, execute_append_eq_some_iff] at hrun
    obtain ⟨middle, hmiddle, hrun⟩ := hrun
    obtain rfl := Option.some.inj (hmiddle.symm.trans hbefore)
    obtain ⟨next, hstep, hrest⟩ := execute_cons_eq_some_iff.mp hrun
    obtain ⟨events, -, hact, htrace⟩ := step_answered hstep
    obtain ⟨hover, hevents⟩ := Supervision.over_of_waited hact
    obtain ⟨later, hlater, hunharmed⟩ := unharmed_of_over hrest hover
    refine ⟨events ++ later, ?_, ?_⟩
    · rw [hlater, htrace, List.append_assoc]
    · exact List.forall_mem_append.mpr ⟨hevents, hunharmed⟩

/-- One signal arrives before the workload is spawned and one while its lease
lapses; the first is passed on, and a number without a name is not. -/
def lapsedWithSignals : List SignalledAction :=
  [.answered (.os (.waited none)), .arrives 64,
    .answered (.drained [15, 64]), .answered (LaunchRun.sampleNow 30),
    .arrives 2, .answered (.os .sent), .answered (LaunchRun.sampleNow 30),
    .answered (LaunchRun.sampleNow 30),
    .answered (.os (.waited (some (.signaled 15)))),
    .answered (.replied (.ok (.leaseReleased .released)))]

theorem signals_forwarded_lapsedWithSignals :
    ∃ final,
      execute (step (fun signal => decide (1 ≤ signal ∧ signal ≤ 31))
          LaunchRun.sampleRequest Lapse.samplePid)
        (called (LaunchRun.sampleLease 0) (Lapse.sampleReading 10) [15])
        lapsedWithSignals = some final ∧
      forwardedSignals final.trace = [15] ∧ final.channel = [2] ∧
      Forwards (fun signal => decide (1 ≤ signal ∧ signal ≤ 31))
        LaunchRun.sampleRequest Lapse.samplePid
        (called (LaunchRun.sampleLease 0) (Lapse.sampleReading 10) [15])
        lapsedWithSignals final := by
  have hruns : ((execute
      (step (fun signal => decide (1 ≤ signal ∧ signal ≤ 31))
        LaunchRun.sampleRequest Lapse.samplePid)
      (called (LaunchRun.sampleLease 0) (Lapse.sampleReading 10) [15])
      lapsedWithSignals).any fun final =>
        decide (forwardedSignals final.trace = [15] ∧
          final.channel = [2])) = true := by
    decide +kernel
  obtain ⟨final, hrun, hfinal⟩ := (Option.any_eq_true _ _).mp hruns
  obtain ⟨hforwarded, hchannel⟩ := of_decide_eq_true hfinal
  exact ⟨final, hrun, hforwarded, hchannel,
    signals_forwarded _ _ _ _ _ _ _ hrun⟩

end SignalledCall

end Eltanin.Cli
