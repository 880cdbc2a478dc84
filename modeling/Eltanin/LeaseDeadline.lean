import Eltanin.AuthorizationRelease
import Eltanin.LapseTermination
import Eltanin.LeaseHolding

/-!
# The deadline of a lease and its expiry

A launch counts the time which is left of a lease from a reading before the
request was sent, and the agent has computed that time from a reading after
the request came.  So the deadline of every lease which is held is no later
than its expiry in the agent, whatever has passed in between and however often
the lease was renewed; the agent cannot have pruned the lease under which a
workload runs.
-/

namespace Eltanin.Agent

open Eltanin.Core InterleavedSessions PartialExecution AuthorizationHandler

namespace AgentClock

variable {clock : AgentClock} {earlier later sent now : Cli.Instant}
  {reading expiresAt : MonotonicTime}

theorem toNat_now (clock : AgentClock) (instant : Cli.Instant) :
    (clock.now instant).nanos.toNat =
      min (instant.asNanos - clock.base.asNanos) (UInt64.size - 1) := by
  unfold now
  split
  next hfits =>
    have hvalue : (UInt64.ofNat (instant.asNanos -
        clock.base.asNanos)).toNat = instant.asNanos - clock.base.asNanos :=
      UInt64.toNat_ofNat_of_lt' hfits
    rw [hvalue]
    omega
  next hover =>
    have hvalue : (UInt64.ofNat (UInt64.size - 1)).toNat =
        UInt64.size - 1 := UInt64.toNat_ofNat_of_lt' (by decide)
    rw [hvalue]
    omega

theorem now_mono (hle : earlier ≤ later) :
    clock.now earlier ≤ clock.now later := by
  rw [MonotonicTime.le_iff_toNat_le, toNat_now, toNat_now]
  have hnanos : earlier.asNanos ≤ later.asNanos := hle
  omega

/-- What is left at the reading, counted from before it, ends no later than
the clock shows the expiry. -/
theorem counted_le_shows (hsent : clock.now sent ≤ reading)
    (hbefore : reading < expiresAt) :
    sent.asNanos + (expiresAt.nanos.toNat - reading.nanos.toNat) ≤
      clock.shows expiresAt := by
  rw [MonotonicTime.le_iff_toNat_le, toNat_now] at hsent
  rw [MonotonicTime.lt_iff_toNat_lt] at hbefore
  have hrange := expiresAt.nanos.toNat_lt_size
  unfold shows
  omega

theorem now_lt_of_lt_shows (hnow : now.asNanos < clock.shows expiresAt)
    (hpositive : 0 < expiresAt.nanos.toNat) : clock.now now < expiresAt := by
  rw [MonotonicTime.lt_iff_toNat_lt, toNat_now]
  unfold shows at hnow
  omega

end AgentClock

/-! ## Readings and grants of the agent -/

variable {handler : AuthorizationHandler} {agent next : AgentState}

/-- A call reads the clock at most once in one action. -/
theorem CallTransition.reading?_of_mem {state after : LeaseState}
    {call : Call} {action : CallAction} {phase : Phase}
    {new : List Happening} {reading : MonotonicTime}
    (htransition : CallTransition handler state call action after phase new)
    (hreading : reading ∈ new.filterMap Happening.reading?) :
    action.reading? = some reading := by
  cases htransition with
  | issued =>
      simpa [Happening.reading?, CallAction.reading?, eq_comm] using hreading
  | issueFailed =>
      simpa [Happening.reading?, CallAction.reading?, eq_comm] using hreading
  | issuePanicked =>
      simpa [Happening.reading?, CallAction.reading?, eq_comm] using hreading
  | timed =>
      simpa [Happening.reading?, CallAction.reading?, eq_comm] using hreading
  | releaseRefused =>
      simpa [Happening.reading?, CallAction.reading?, eq_comm] using hreading
  | released =>
      generalize teardownReply _ _ _ = reply at hreading
      cases reply <;>
        simpa [Happening.reading?, CallAction.reading?, eq_comm]
          using hreading
  | _ => simp [Happening.reading?] at hreading

/-- The readings which the calls have taken, each with its call. -/
def readingsOf (agent : AgentState) (i : ℕ) : List MonotonicTime :=
  (agent.wordOf i).filterMap Happening.reading?

/-- What one action adds to the readings has just been read. -/
structure ReadsOnly (agent next : AgentState) (now : MonotonicTime) :
    Prop where
  readings : ∀ reading ∈ readings next,
    reading ∈ Agent.readings agent ∨ reading = now
  readingsOf : ∀ i, ∀ reading ∈ readingsOf next i,
    reading ∈ Agent.readingsOf agent i ∨ reading = now
  transcript : agent.transcript ⊆ next.transcript

theorem readsOnly_of_act {i : ℕ} {action : CallAction} {now : MonotonicTime}
    (hstep : handler.step agent (.act i action) = some next)
    (hadmits : ∀ reading ∈ action.reading?, reading = now) :
    ReadsOnly agent next now := by
  obtain ⟨call, state, after, new, hcall, hact, hnext⟩ :=
    step_act_eq_some_iff.mp hstep
  obtain ⟨phase, -, htransition⟩ := reaches_of_act hact
  have hnew : ∀ reading ∈ new.filterMap Happening.reading?,
      reading = now := by
    intro reading hreading
    exact hadmits reading (htransition.reading?_of_mem hreading)
  rw [hnext]
  constructor
  · intro reading hreading
    rw [readings_advance, List.mem_append] at hreading
    exact hreading.imp id (hnew reading)
  · intro j reading hreading
    unfold readingsOf at hreading ⊢
    by_cases hsame : j = i
    · rw [hsame] at hreading ⊢
      rw [System.wordOf_advance_self, List.filterMap_append,
        List.mem_append] at hreading
      exact hreading.imp id (hnew reading)
    · rw [System.wordOf_advance_ne hsame] at hreading
      exact Or.inl hreading
  · intro event hevent
    exact System.mem_transcript_advance_iff.mpr (Or.inl hevent)

theorem readingsOf_eq_nil {actions : List AgentAction}
    (hruns : handler.Runs actions agent) :
    readingsOf agent agent.sessions.length = [] := by
  have hnone : agent.wordOf agent.sessions.length = [] := by
    rw [List.eq_nil_iff_forall_not_mem]
    intro event hevent
    have hlt := (Program.traced_of_run hruns).1 _
      (System.mem_wordOf_iff.mp hevent)
    exact lt_irrefl _ hlt
  rw [readingsOf, hnone]
  rfl

theorem AuthorizationHandler.Runs.eq_of_inserted {actions : List AgentAction}
    (hruns : handler.Runs actions agent) {i j : ℕ}
    {lease other : ComputeLease}
    (hlease : (i, .inserted lease) ∈ agent.transcript)
    (hother : (j, .inserted other) ∈ agent.transcript)
    (hid : other.id = lease.id) : other = lease := by
  have hissued : ∀ {k : ℕ} {stored : ComputeLease},
      (k, .inserted stored) ∈ agent.transcript →
        (k, Happening.issued stored) ∈ agent.transcript := by
    intro k stored hstored
    obtain ⟨call, hcall⟩ := hruns.exists_call_of_mem hstored
    obtain ⟨_, _, _, _, _, _, _, _, hevents⟩ :=
      (hruns.explained hcall).grants_of_inserted
        (System.mem_wordOf_iff.mpr hstored)
    rw [← System.mem_wordOf_iff, hevents]
    simp [grantEvents]
  have heq := hruns.ledgerInvariant.issuer.issued_distinct.eq_of_key_eq
    (hissued hother) (hissued hlease) (congrArg some hid) rfl
  simp only [Prod.mk.injEq, Happening.issued.injEq] at heq
  exact heq.2

theorem AuthorizationHandler.Runs.expiresAt_pos_of_inserted
    {actions : List AgentAction} (hruns : handler.Runs actions agent) {i : ℕ}
    {lease : ComputeLease}
    (hinserted : (i, .inserted lease) ∈ agent.transcript) :
    0 < lease.expiresAt.nanos.toNat := by
  obtain ⟨call, hcall⟩ := hruns.exists_call_of_mem hinserted
  obtain ⟨request, now, later, view, rest, -, hgrants, -, -⟩ :=
    (hruns.explained hcall).grants_of_inserted
      (System.mem_wordOf_iff.mpr hinserted)
  exact Nat.zero_lt_of_lt
    (MonotonicTime.lt_iff_toNat_lt.mp hgrants.lt_expiresAt)

/-- A grant which a client is answered, and the reading behind it. -/
theorem AuthorizationHandler.Runs.exists_inserted_of_granted
    {actions : List AgentAction} (hruns : handler.Runs actions agent) {i : ℕ}
    {call : Call} {view : Protocol.LeaseView}
    (hcall : agent.sessions[i]? = some call)
    (hgranted : call.response? = some (.leaseGranted view)) :
    ∃ lease reading, (i, .inserted lease) ∈ agent.transcript ∧
      reading ∈ readingsOf agent i ∧ lease.id = view.leaseId ∧
      view.remaining = lease.expiresAt.saturatingDurationSince reading ∧
      reading < lease.expiresAt := by
  obtain ⟨request, now, reading, lease, rest, -, hgrants, hevents, -⟩ :=
    (hruns.explained hcall).grants hgranted
  refine ⟨lease, reading, ?_, ?_, by rw [hgrants.shown],
    by rw [hgrants.shown], hgrants.lt_expiresAt⟩
  · rw [← System.mem_wordOf_iff, hevents]
    simp [grantEvents]
  · rw [readingsOf, hevents]
    simp [grantEvents, Happening.reading?]

end Eltanin.Agent

namespace Eltanin.Cli

open Eltanin.Core Agent Protocol InterleavedSessions PartialExecution
  AuthorizationHandler

/-! ## The invariant of a timeline -/

/-- The agent has granted `lease` for the renewal, and it expires no earlier
than the deadline. -/
structure Backs (clock : AgentClock) (agent : AgentState) (renewal : Renewal)
    (lease : ComputeLease) : Prop where
  inserted : ∃ i, (i, .inserted lease) ∈ agent.transcript
  leaseId : lease.id = renewal.leaseId
  deadline : renewal.deadline.asNanos ≤ clock.shows lease.expiresAt

namespace Timeline

variable {handler : AuthorizationHandler} {clock : AgentClock}
  {named : Int32 → Bool} {timeline : Timeline}

/-- What is awaited was asked after the client's reading, and what is held is
backed. -/
structure Coherent (handler : AuthorizationHandler) (clock : AgentClock)
    (timeline : Timeline) : Prop where
  reached : Reachable handler.step handler.initial timeline.agent
  past : ∀ reading ∈ readings timeline.agent, reading ≤ clock.now timeline.now
  asked : timeline.serving.isSome → timeline.client.code.asks.isSome
  attempted : ∀ attemptedAt,
    timeline.client.code.attemptedAt? = some attemptedAt →
      attemptedAt ≤ timeline.now
  later : ∀ attemptedAt i,
    timeline.client.code.attemptedAt? = some attemptedAt →
      timeline.serving = some i → ∀ reading ∈ readingsOf timeline.agent i,
        clock.now attemptedAt ≤ reading
  held : ∀ renewal, timeline.client.code.renewal? = some renewal →
    ∃ lease, Backs clock timeline.agent renewal lease

theorem coherent_starting (handler : AuthorizationHandler)
    (clock : AgentClock) (start : Instant) :
    (starting handler start).Coherent handler clock where
  reached := .refl _ _
  past := by
    intro reading hreading
    contradiction
  asked := by
    intro hserving
    contradiction
  attempted := by
    intro attemptedAt hattempted
    contradiction
  later := by
    intro attemptedAt i hattempted
    contradiction
  held := by
    intro renewal hheld
    contradiction

theorem Coherent.elapse (hcoherent : timeline.Coherent handler clock)
    {later : Instant} (hle : timeline.now ≤ later) :
    ({ timeline with now := later } : Timeline).Coherent handler clock where
  reached := hcoherent.reached
  past := by
    intro reading hreading
    exact Nat.le_trans (hcoherent.past reading hreading)
      (AgentClock.now_mono hle)
  asked := hcoherent.asked
  attempted := by
    intro attemptedAt hattempted
    exact Nat.le_trans (hcoherent.attempted attemptedAt hattempted) hle
  later := hcoherent.later
  held := hcoherent.held

theorem Coherent.agent (hcoherent : timeline.Coherent handler clock)
    {next : AgentState} (hreached : Reachable handler.step timeline.agent next)
    (hreads : ReadsOnly timeline.agent next (clock.now timeline.now)) :
    ({ timeline with agent := next } : Timeline).Coherent handler clock where
  reached := hcoherent.reached.trans hreached
  past := by
    intro reading hreading
    rcases hreads.readings reading hreading with hold | hnow
    · exact hcoherent.past reading hold
    · exact hnow ▸ Nat.le_refl _
  asked := hcoherent.asked
  attempted := hcoherent.attempted
  later := by
    intro attemptedAt i hattempted hserving reading hreading
    rcases hreads.readingsOf i reading hreading with hold | hnow
    · exact hcoherent.later attemptedAt i hattempted hserving reading hold
    · have hle := hcoherent.attempted attemptedAt hattempted
      exact hnow ▸ AgentClock.now_mono hle
  held := by
    intro renewal hheld
    obtain ⟨lease, ⟨i, hinserted⟩, hleaseId, hdeadline⟩ :=
      hcoherent.held renewal hheld
    exact ⟨lease, ⟨i, hreads.transcript hinserted⟩, hleaseId, hdeadline⟩

/-- The request arrives: its call has not read the clock yet. -/
theorem Coherent.serve (hcoherent : timeline.Coherent handler clock) {i : ℕ}
    (hasks : timeline.client.code.asks.isSome)
    (hfresh : readingsOf timeline.agent i = []) :
    ({ timeline with serving := some i } : Timeline).Coherent handler
      clock where
  reached := hcoherent.reached
  past := hcoherent.past
  asked := fun _ => hasks
  attempted := hcoherent.attempted
  later := by
    intro attemptedAt j _ hserving reading hreading
    cases hserving
    rw [hfresh] at hreading
    contradiction
  held := hcoherent.held

theorem Coherent.serving_eq_none (hcoherent : timeline.Coherent handler clock)
    {answer : LaunchAnswer} {result : Launch × List LaunchEvent}
    (hact : timeline.client.code.act named answer = some result) :
    timeline.servingAfter answer = none := by
  cases hserving : timeline.serving with
  | none =>
      unfold servingAfter
      split
      · rfl
      · exact hserving
  | some i =>
      have hasks := hcoherent.asked (by rw [hserving]; rfl)
      obtain ⟨reply, hreply⟩ := Launch.replied_of_act hasks hact
      rw [hreply]
      rfl

/-- The deadline of a granted lease is counted from before the reading which
the agent has counted the remaining time from. -/
theorem Coherent.backs_adopt (hcoherent : timeline.Coherent handler clock)
    {lease : LeaseView} {attemptedAt : Instant}
    (hattempted : timeline.client.code.attemptedAt? = some attemptedAt)
    (hadmits : timeline.AdmitsAnswer (.replied (.ok (.leaseGranted lease)))) :
    ∃ stored,
      Backs clock timeline.agent (.adopt lease attemptedAt) stored := by
  have hresponse : timeline.response? = some (.leaseGranted lease) := hadmits
  unfold response? at hresponse
  split at hresponse
  next => contradiction
  next i hserving =>
    obtain ⟨call, hcall, hgranted⟩ := Option.bind_eq_some_iff.mp hresponse
    obtain ⟨actions, hruns⟩ := hcoherent.reached
    obtain ⟨stored, reading, hinserted, hreading, hleaseId, hremaining,
      hbefore⟩ := Runs.exists_inserted_of_granted hruns hcall hgranted
    have hsent : clock.now attemptedAt ≤ reading :=
      hcoherent.later attemptedAt i hattempted hserving reading hreading
    refine ⟨stored, ⟨i, hinserted⟩, hleaseId, ?_⟩
    calc (safeDeadline attemptedAt lease.remaining).asNanos
      _ ≤ attemptedAt.asNanos + lease.remaining.asNanos :=
          asNanos_safeDeadline_le attemptedAt lease.remaining
      _ = attemptedAt.asNanos +
            (stored.expiresAt.nanos.toNat - reading.nanos.toNat) := by
          rw [hremaining, MonotonicTime.asNanos_saturatingDurationSince]
      _ ≤ clock.shows stored.expiresAt :=
          AgentClock.counted_le_shows hsent hbefore

theorem Coherent.client (hcoherent : timeline.Coherent handler clock)
    {answer : LaunchAnswer} {next : LaunchRun}
    (hadmits : timeline.AdmitsAnswer answer)
    (hstep : timeline.client.step named answer = some next) :
    ({ timeline with
        client := next
        serving := timeline.servingAfter answer } : Timeline).Coherent
      handler clock := by
  obtain ⟨events, hact, -⟩ := LaunchRun.step_cases hstep
  have hholding := Launch.holding_step hact
  have hserving := hcoherent.serving_eq_none hact
  refine ⟨hcoherent.reached, hcoherent.past, ?_, ?_, ?_, ?_⟩
  · intro hsome
    rw [hserving] at hsome
    contradiction
  · intro attemptedAt hattempted
    have hanswer := hholding.answer_of_attempted hattempted
    rw [hanswer] at hadmits
    have hnow : attemptedAt = timeline.now := hadmits
    exact hnow ▸ Nat.le_refl _
  · intro attemptedAt i _ hsome
    rw [hserving] at hsome
    contradiction
  · refine hholding.held _ hcoherent.held ?_ ?_
    · intro lease attemptedAt hattempted hanswer
      exact hcoherent.backs_adopt hattempted (hanswer ▸ hadmits)
    · rintro renewal renewAt ⟨lease, hinserted, hleaseId, hdeadline⟩
      exact ⟨lease, hinserted, hleaseId, hdeadline⟩

theorem readsOnly_of_admits {action : AgentAction} {next : AgentState}
    (hadmits : timeline.AdmitsCall clock action)
    (hstep : handler.step timeline.agent action = some next) :
    ReadsOnly timeline.agent next (clock.now timeline.now) := by
  cases action with
  | start opening =>
      cases hstep
      exact ⟨fun _ => Or.inl, fun _ _ => Or.inl, fun _ => id⟩
  | act i action => exact readsOnly_of_act hstep hadmits

theorem Coherent.step (hcoherent : timeline.Coherent handler clock)
    {action : TimelineAction} {next : Timeline}
    (hstep : timeline.step handler clock named action = some next) :
    next.Coherent handler clock := by
  cases action with
  | elapse later =>
      simp only [Timeline.step] at hstep
      split at hstep
      next hle =>
        cases hstep
        exact hcoherent.elapse hle
      next => contradiction
  | agent action =>
      simp only [Timeline.step] at hstep
      split at hstep
      next hadmits =>
        obtain ⟨agent, hagent, heq⟩ := Option.map_eq_some_iff.mp hstep
        cases heq
        exact hcoherent.agent (.single hagent)
          (readsOnly_of_admits hadmits hagent)
      next => contradiction
  | arrive peer =>
      simp only [Timeline.step] at hstep
      split at hstep
      next request hasks hnone =>
        obtain ⟨agent, hagent, heq⟩ := Option.map_eq_some_iff.mp hstep
        cases heq
        obtain ⟨actions, hruns⟩ := hcoherent.reached
        have hfresh := readingsOf_eq_nil hruns
        have hadmits : timeline.AdmitsCall clock (.start (peer, request)) :=
          trivial
        have hnext := hcoherent.agent (.single hagent)
          (readsOnly_of_admits hadmits hagent)
        cases hagent
        exact hnext.serve (by rw [hasks]; rfl) hfresh
      next => contradiction
  | client answer =>
      simp only [Timeline.step] at hstep
      split at hstep
      next hadmits =>
        obtain ⟨client, hclient, heq⟩ := Option.map_eq_some_iff.mp hstep
        cases heq
        exact hcoherent.client hadmits hclient
      next => contradiction

theorem coherent_of_run {start : Instant} {actions : List TimelineAction}
    (hrun : execute (Timeline.step handler clock named)
      (starting handler start) actions = some timeline) :
    timeline.Coherent handler clock :=
  execute_guarded_invariant (fun _ _ => True) (Coherent handler clock)
    (fun _ _ _ hcoherent _ hstep => hcoherent.step hstep)
    (coherent_starting handler clock start)
    (guarded_of_forall fun _ _ _ => trivial) hrun

/-! ## The deadline and the expiry -/

/-- The poll which reads the clock now lets the workload run on under
`renewal`. -/
def RunsOn (named : Int32 → Bool) (timeline : Timeline) (renewal : Renewal) :
    Prop :=
  ∃ request child next events,
    timeline.client.code = .supervising request child (.checking renewal) ∧
      timeline.client.code.act named (.os (.now timeline.now)) =
        some (next, events) ∧
      next.renewal? = some renewal

/-- The agent has not pruned the lease, and does not prune it now. -/
structure Keeps (clock : AgentClock) (timeline : Timeline)
    (lease : ComputeLease) : Prop where
  unexpired : clock.now timeline.now < lease.expiresAt
  unpruned : ∀ reading ∈ readings timeline.agent, reading < lease.expiresAt
  stored : Unreleased timeline.agent lease.id →
    (timeline.agent.shared.prune (clock.now timeline.now)).get lease.id =
      some lease

theorem RunsOn.now_lt {renewal : Renewal}
    (hrunsOn : timeline.RunsOn named renewal) :
    timeline.now < renewal.deadline := by
  obtain ⟨request, child, next, events, hcode, hact, hheld⟩ := hrunsOn
  rw [hcode] at hact
  have hsupervised : Launch.supervised request child
      (Supervision.checked child renewal timeline.now) = (next, events) :=
    Option.some.inj hact
  have hholding := (Launch.holding_supervised request child
    (Supervision.checked child renewal timeline.now)).1
  rw [hsupervised] at hholding
  rcases Supervision.holding_checked child renewal timeline.now
    with hdrop | ⟨-, hbefore⟩
  · rw [hdrop] at hholding
    have hnone : next.renewal? = none := congrArg Holding.renewal? hholding
    rw [hnone] at hheld
    contradiction
  · exact hbefore

theorem Coherent.keeps (hcoherent : timeline.Coherent handler clock)
    {renewal : Renewal} {lease : ComputeLease}
    (hbacks : Backs clock timeline.agent renewal lease)
    (hbefore : timeline.now < renewal.deadline) :
    timeline.Keeps clock lease := by
  obtain ⟨actions, hruns⟩ := hcoherent.reached
  obtain ⟨i, hinserted⟩ := hbacks.inserted
  have hnow : timeline.now.asNanos < clock.shows lease.expiresAt :=
    Nat.lt_of_lt_of_le hbefore hbacks.deadline
  have hpositive := Runs.expiresAt_pos_of_inserted hruns hinserted
  have hunexpired := AgentClock.now_lt_of_lt_shows hnow hpositive
  have hunpruned : ∀ reading ∈ readings timeline.agent,
      reading < lease.expiresAt := by
    intro reading hreading
    exact Nat.lt_of_le_of_lt (hcoherent.past reading hreading) hunexpired
  refine ⟨hunexpired, hunpruned, ?_⟩
  intro hunreleased
  exact LeaseState.get_prune_eq_some_iff.mpr
    ⟨Runs.stored_of_inserted hruns hinserted hunreleased hunpruned,
      hunexpired⟩

/-- However the two parties are interleaved, the lease which is held expires
no earlier than its deadline, and at every poll which lets the workload run on
the agent still has it.  Whatever a launch is replied, it stays within its
limits. -/
theorem deadline_never_outlives_lease (handler : AuthorizationHandler)
    (clock : AgentClock) (named : Int32 → Bool) (start : Instant)
    (actions : List TimelineAction) {timeline : Timeline}
    (hrun : execute (Timeline.step handler clock named)
      (starting handler start) actions = some timeline) :
    (∀ renewal, timeline.client.code.renewal? = some renewal →
      ∃ lease, Backs clock timeline.agent renewal lease ∧
        (∀ i other, (i, .inserted other) ∈ timeline.agent.transcript →
          other.id = renewal.leaseId → other = lease) ∧
        (timeline.RunsOn named renewal → timeline.Keeps clock lease)) ∧
    (∀ answers run,
      execute (LaunchRun.step named) (.called start) answers = some run →
        run.WithinLimits named) ∧
    ∀ (lease : LeaseView) (base : Instant),
      (Renewal.adopt lease base).Within base := by
  refine ⟨?_, ?_, Renewal.Within.adopt⟩
  · intro renewal hheld
    have hcoherent := coherent_of_run hrun
    obtain ⟨lease, hbacks⟩ := hcoherent.held renewal hheld
    obtain ⟨reached, hruns⟩ := hcoherent.reached
    obtain ⟨i, hinserted⟩ := hbacks.inserted
    refine ⟨lease, hbacks, ?_, ?_⟩
    · intro j other hother hid
      exact Runs.eq_of_inserted hruns hinserted hother
        (hid.trans hbacks.leaseId.symm)
    · intro hrunsOn
      exact hcoherent.keeps hbacks hrunsOn.now_lt
  · intro answers run hanswers
    exact LaunchRun.withinLimits_of_run hanswers

/-! ## A lease which is renewed -/

def renewingHandler : AuthorizationHandler :=
  { sampleHandler with config := ⟨.fromNanos 20000000000, 2, by decide⟩ }

def renewedClock : AgentClock := ⟨Lapse.sampleReading 5⟩

def renewedReading (seconds : UInt8) : MonotonicTime :=
  renewedClock.now (Lapse.sampleReading seconds)

/-- The agent grants the request of a call, one second after issuing. -/
def grantOver (call : ℕ) (issuedAt timedAt : UInt8) : List TimelineAction :=
  [.elapse (Lapse.sampleReading issuedAt), .arrive (workerPeer workerHash),
    .agent (.act call (.issue (renewedReading issuedAt))),
    .agent (.act call (.enforce (.returned (.ok .allowed)))),
    .elapse (Lapse.sampleReading timedAt),
    .agent (.act call (.readClock (renewedReading timedAt))),
    .agent (.act call .settle), .agent (.act call .record)]

def clientReads (seconds : UInt8) : List TimelineAction :=
  [.elapse (Lapse.sampleReading seconds),
    .client (.os (.now (Lapse.sampleReading seconds)))]

def clientGranted (sequence remaining : UInt64) : TimelineAction :=
  .client (.replied (.ok (.leaseGranted
    ⟨⟨⟨"agent-1"⟩, sequence⟩, .fromNanos remaining⟩)))

/-- The first lease would lapse at 29 s, and is renewed until 39 s. -/
def renewedTimeline : List TimelineAction :=
  [.client (.profile (.ok ⟨sampleResource, .compute⟩)),
    .client (.context (.ok ())), .client (.environment none)] ++
  clientReads 10 ++ grantOver 0 11 12 ++
  [clientGranted 0 19000000000, .client (.installed (.ok ())),
    .client (.spawned (.ok Lapse.samplePid)),
    .client (.os (.waited none)), .client (.drained [])] ++
  clientReads 20 ++ clientReads 20 ++ grantOver 1 21 22 ++
  [clientGranted 1 19000000000, .arrive (workerPeer workerHash),
    .agent (.act 2 (.release (renewedReading 22)
      (.returned (.ok .allowed)))),
    .agent (.act 2 .record),
    .client (.replied (.ok (.leaseReleased .released))),
    .client (.os .slept), .client (.os (.waited none)),
    .client (.drained []), .elapse (Lapse.sampleReading 30)]

def renewedLease : Renewal where
  leaseId := ⟨⟨"agent-1"⟩, 1⟩
  deadline := Lapse.sampleReading 39
  renewAt := ⟨29500000000, by decide⟩

theorem renewedTimeline_polls :
    ((execute (Timeline.step renewingHandler renewedClock fun _ => true)
      (starting renewingHandler (Lapse.sampleReading 7))
      renewedTimeline).any fun timeline =>
        decide (timeline.now = Lapse.sampleReading 30 ∧
          timeline.client.code = .supervising ⟨sampleResource, .compute⟩
            Lapse.samplePid (.checking renewedLease))) = true := by
  decide +kernel

theorem renewedTimeline_deadline :
    ∃ timeline lease,
      execute (Timeline.step renewingHandler renewedClock fun _ => true)
        (starting renewingHandler (Lapse.sampleReading 7))
        renewedTimeline = some timeline ∧
      timeline.RunsOn (fun _ => true) renewedLease ∧
      Backs renewedClock timeline.agent renewedLease lease ∧
      timeline.Keeps renewedClock lease := by
  obtain ⟨timeline, hrun, hpolls⟩ :=
    (Option.any_eq_true _ _).mp renewedTimeline_polls
  obtain ⟨hnow, hcode⟩ := of_decide_eq_true hpolls
  have hheld : timeline.client.code.renewal? = some renewedLease := by
    rw [hcode]
    rfl
  have hrunsOn : timeline.RunsOn (fun _ => true) renewedLease := by
    refine ⟨_, _, .supervising ⟨sampleResource, .compute⟩ Lapse.samplePid
      (.attempting renewedLease), [], hcode, ?_, rfl⟩
    rw [hcode, hnow]
    rfl
  obtain ⟨hbacked, -, -⟩ := deadline_never_outlives_lease renewingHandler
    renewedClock (fun _ => true) (Lapse.sampleReading 7) renewedTimeline hrun
  obtain ⟨lease, hbacks, -, hkeeps⟩ := hbacked renewedLease hheld
  exact ⟨timeline, lease, hrun, hrunsOn, hbacks, hkeeps hrunsOn⟩

end Timeline

end Eltanin.Cli
