import Eltanin.ConnectionSlots
import Eltanin.DaemonSafety
import Eltanin.RankedExecution

/-!
# Shutting down

Once shutdown has been requested, the next connection in the queue wakes the
accept loop, which takes at most one more connection into service, and `drain`
waits for the workers no longer than its deadline allows, whatever they do.
The report counts as abandoned at least those workers which are still running
when it is made.
-/

namespace Eltanin.Agent

open Eltanin.Core InterleavedSessions PartialExecution Protocol
open Eltanin.Cli (Instant)

/-! ## What the report says -/

def Worker.isRunning (self : Worker) : Bool := self.phase ≠ .finished

/-- The handles which `drain` has not come to, and its report so far. -/
def AcceptorPhase.remaining? :
    AcceptorPhase → Option (List ℕ × ShutdownReport)
  | .draining _ _ handle rest report => some (handle :: rest, report)
  | .returned report => some ([], report)
  | _ => none

theorem remaining?_settle (deadline : Instant) (handles : List ℕ)
    (report : ShutdownReport) :
    (settle deadline handles report).remaining? = some (handles, report) := by
  cases handles <;> rfl

/-- Of the workers which `drain` has come to, no more are running than it has
counted as abandoned. -/
structure ReportSound (server : Server) : Prop where
  threads : server.connectionThreads = List.range server.workers.length
  reported : ∀ handles report,
    server.acceptor.remaining? = some (handles, report) →
      ∃ settled, handles = (List.range server.workers.length).drop settled ∧
        (server.workers.take settled).countP Worker.isRunning ≤
          report.abandoned

namespace ReportSound

variable {config : ServerConfig} {server next : Server}
  {action : ServerAction}

theorem initial : ReportSound Server.initial := ⟨rfl, nofun⟩

/-- A step outside of `drain` which spawns no worker. -/
theorem keep (hsound : ReportSound server)
    (hthreads : next.connectionThreads = server.connectionThreads)
    (hworkers : next.workers = server.workers)
    (hnone : next.acceptor.remaining? = none) : ReportSound next where
  threads := by rw [hthreads, hworkers, hsound.threads]
  reported handles report hremaining := by
    rw [hnone] at hremaining
    contradiction

/-- A step within the loop for one handle. -/
theorem stay (hsound : ReportSound server) {phase later : AcceptorPhase}
    (hphase : server.acceptor = phase)
    (hsame : later.remaining? = phase.remaining?) :
    ReportSound { server with acceptor := later } where
  threads := hsound.threads
  reported handles report hremaining := by
    apply hsound.reported handles report
    rw [hphase, ← hsame]
    exact hremaining

/-- The loop goes on to the next handle; the worker is not running, or is
counted as abandoned. -/
theorem advance (hsound : ReportSound server) {deadline : Instant}
    {handle : ℕ} {rest : List ℕ} {report counted : ShutdownReport}
    (hremaining : server.acceptor.remaining? = some (handle :: rest, report))
    (hcounted : ∀ worker, server.workers[handle]? = some worker →
      report.abandoned + worker.isRunning.toNat ≤ counted.abandoned) :
    ReportSound
      { server with acceptor := settle deadline rest counted } where
  threads := hsound.threads
  reported handles other hlater := by
    rw [remaining?_settle, Option.some.injEq, Prod.mk.injEq] at hlater
    obtain ⟨rfl, rfl⟩ := hlater
    obtain ⟨settled, hdrop, hrunning⟩ := hsound.reported _ _ hremaining
    have hlt : settled < server.workers.length := by
      by_contra hge
      rw [List.drop_eq_nil_of_le (by simpa using hge)] at hdrop
      contradiction
    rw [List.drop_eq_getElem_cons (by simpa using hlt), List.getElem_range,
      List.cons.injEq] at hdrop
    obtain ⟨rfl, hrest⟩ := hdrop
    have hworker := List.getElem?_eq_getElem hlt
    have hbound := hcounted _ hworker
    refine ⟨handle + 1, hrest, ?_⟩
    rw [List.take_add_one, List.countP_append, hworker,
      Option.toList_some, List.countP_singleton]
    cases hrun : (server.workers[handle]).isRunning with
    | true =>
        rw [hrun, Bool.toNat_true] at hbound
        simp only [if_true]
        omega
    | false =>
        rw [hrun, Bool.toNat_false] at hbound
        simp only [Bool.false_eq_true, if_false]
        omega

/-- A worker which has finished does not run again. -/
theorem worker (hsound : ReportSound server) {index : ℕ}
    {moved : WorkerAction} {worker : Worker} {phase : WorkerPhase}
    {active : UInt64} (hworker : server.workers[index]? = some worker)
    (hact : worker.phase.act server.active moved = some (phase, active)) :
    ReportSound
      { server with
        workers := server.workers.set index { worker with phase := phase }
        active := active } where
  threads := by
    rw [List.length_set]
    exact hsound.threads
  reported handles report hremaining := by
    obtain ⟨settled, hdrop, hrunning⟩ :=
      hsound.reported handles report hremaining
    refine ⟨settled, by rw [List.length_set]; exact hdrop, ?_⟩
    apply le_trans _ hrunning
    apply IndexedList.countP_le_countP
    intro i entry hentry hruns
    by_cases hlt : i < settled
    · rw [List.getElem?_take_of_lt hlt] at hentry ⊢
      rw [List.getElem?_set] at hentry
      by_cases heq : index = i
      · subst heq
        refine ⟨worker, hworker, ?_⟩
        by_contra hstopped
        have hfinished : worker.phase = .finished := by
          simpa [Worker.isRunning] using hstopped
        rw [hfinished] at hact
        cases moved <;> contradiction
      · rw [if_neg heq] at hentry
        exact ⟨entry, hentry, hruns⟩
    · rw [List.getElem?_take_eq_none (Nat.not_lt.mp hlt)] at hentry
      contradiction

theorem transition (hsound : ReportSound server)
    (htransition : Transition config server action next) :
    ReportSound next := by
  cases htransition with
  | spawnWorker hphase =>
      refine ⟨?_, nofun⟩
      simp only [hsound.threads, List.length_append, List.length_singleton,
        List.range_succ]
  | startDrain hphase =>
      refine ⟨hsound.threads, ?_⟩
      intro handles report hremaining
      rw [remaining?_settle, Option.some.injEq, Prod.mk.injEq] at hremaining
      obtain ⟨rfl, rfl⟩ := hremaining
      exact ⟨0, hsound.threads, Nat.zero_le _⟩
  | unfinished hphase hworker hrunning => exact hsound.stay hphase rfl
  | inTime hphase hearly => exact hsound.stay hphase rfl
  | wake hphase => exact hsound.stay hphase rfl
  | drain hphase hworker hfinished =>
      apply hsound.advance (by rw [hphase]; rfl)
      intro found hfound
      rw [hworker, Option.some.injEq] at hfound
      have hstopped : found.isRunning = false := by
        simp [Worker.isRunning, ← hfound, hfinished]
      rw [hstopped, Bool.toNat_false]
      exact le_refl _
  | abandon hphase hlate =>
      apply hsound.advance (by rw [hphase]; rfl)
      intro found _
      have hone := Bool.toNat_le found.isRunning
      change _ ≤ _ + 1
      omega
  | worker hworker hact => exact hsound.worker hworker hact
  | connect hlistening => exact ⟨hsound.threads, hsound.reported⟩
  | shutdown => exact ⟨hsound.threads, hsound.reported⟩
  | connectSelf hflag hlistening => exact ⟨hsound.threads, hsound.reported⟩
  | failSelf hflag => exact hsound
  | _ => exact hsound.keep rfl rfl rfl

end ReportSound

theorem reportSound_of_run {config : ServerConfig} {server : Server}
    {actions : List ServerAction}
    (hrun : execute (Server.step config) Server.initial actions =
      some server) :
    ReportSound server := by
  apply execute_guarded_invariant (fun _ _ => True) ReportSound _
    ReportSound.initial (guarded_of_forall fun _ _ _ => trivial) hrun
  intro state action next hstate _ hstep
  exact hstate.transition (transition_of_step hstep)

theorem ReportSound.returned {server : Server} (hsound : ReportSound server)
    {report : ShutdownReport} (hreturned : server.acceptor = .returned report) :
    server.workers.countP Worker.isRunning ≤ report.abandoned := by
  obtain ⟨settled, hdrop, hrunning⟩ := hsound.reported [] report
    (by rw [hreturned]; rfl)
  have hall : server.workers.length ≤ settled := by
    have hlength := congrArg List.length hdrop
    rw [List.length_nil, List.length_drop, List.length_range] at hlength
    omega
  rw [List.take_of_length_le hall] at hrunning
  exact hrunning

/-! ## How long it takes -/

/-- The 20 ms which `drain` sleeps between two polls, in nanoseconds. -/
def pollInterval : ℕ := 20000000

/-- The accept loop with the least which its clock can show next. -/
structure TimedServer where
  server : Server
  clock : ℕ
  deriving DecidableEq

def ServerAction.reading? : ServerAction → Option Instant
  | .acceptor (.startDrain now) => some now
  | .acceptor (.checkDeadline now) => some now
  | _ => none

/-- A reading is not earlier than the one before, and later by a poll interval
for every sleep in between. -/
def ServerAction.clockAfter (clock : ℕ) : ServerAction → ℕ
  | .acceptor (.startDrain now) => now.asNanos
  | .acceptor (.checkDeadline now) => now.asNanos
  | .acceptor .sleep => clock + pollInterval
  | _ => clock

def ServerAction.isAcceptor : ServerAction → Bool
  | .acceptor _ => true
  | _ => false

def ServerAction.spawnsWorker : ServerAction → Bool
  | .acceptor (.spawn succeeded) => succeeded
  | _ => false

def TimedServer.step (config : ServerConfig) (timed : TimedServer)
    (action : ServerAction) : Option TimedServer :=
  if action.reading?.all fun now => timed.clock ≤ now.asNanos then
    match timed.server.step config action with
    | none => none
    | some server => some ⟨server, action.clockAfter timed.clock⟩
  else none

theorem TimedServer.step_eq_some_iff {config : ServerConfig}
    {timed next : TimedServer} {action : ServerAction} :
    timed.step config action = some next ↔
      (∀ now, action.reading? = some now → timed.clock ≤ now.asNanos) ∧
        timed.server.step config action = some next.server ∧
        next.clock = action.clockAfter timed.clock := by
  have hall : (action.reading?.all fun now => timed.clock ≤ now.asNanos) =
      true ↔ ∀ now, action.reading? = some now →
        timed.clock ≤ now.asNanos := by
    simp [Option.all_eq_true]
  unfold TimedServer.step
  by_cases hlater : ∀ now, action.reading? = some now →
      timed.clock ≤ now.asNanos
  · rw [if_pos (hall.mpr hlater)]
    cases hstep : timed.server.step config action with
    | none => simp
    | some server =>
        obtain ⟨nextServer, nextClock⟩ := next
        simp only [Option.some.injEq, TimedServer.mk.injEq]
        constructor
        · rintro ⟨hserver, hclock⟩
          exact ⟨hlater, hserver, hclock.symm⟩
        · rintro ⟨-, hserver, hclock⟩
          exact ⟨hserver, hclock.symm⟩
  · rw [if_neg fun hyes => hlater (hall.mp hyes)]
    simp [hlater]

/-- Without its clock the timed loop is the accept loop. -/
theorem execute_untimed {config : ServerConfig} {timed final : TimedServer}
    {actions : List ServerAction}
    (hrun : execute (TimedServer.step config) timed actions = some final) :
    execute (Server.step config) timed.server actions =
      some final.server := by
  induction actions generalizing timed with
  | nil =>
      rw [execute_nil, Option.some.injEq] at hrun ⊢
      rw [hrun]
  | cons action rest ih =>
      obtain ⟨next, hstep, hrest⟩ := execute_cons_eq_some_iff.mp hrun
      obtain ⟨-, hserver, -⟩ := TimedServer.step_eq_some_iff.mp hstep
      exact execute_cons_eq_some_iff.mpr ⟨next.server, hserver, ih hrest⟩

/-! ### The rank -/

/-- How often `drain` can sleep before the deadline. -/
def sleepsLeft (deadline clock : ℕ) : ℕ :=
  (deadline - clock + (pollInterval - 1)) / pollInterval

theorem sleepsLeft_le {deadline clock later : ℕ} (hle : clock ≤ later) :
    sleepsLeft deadline later ≤ sleepsLeft deadline clock := by
  unfold sleepsLeft
  apply Nat.div_le_div_right
  omega

theorem sleepsLeft_sleep {deadline clock : ℕ} (hlt : clock < deadline) :
    sleepsLeft deadline (clock + pollInterval) + 1 ≤
      sleepsLeft deadline clock := by
  unfold sleepsLeft pollInterval
  omega

theorem sleepsLeft_start (timeout clock : ℕ) :
    sleepsLeft (timeout + clock) clock = sleepsLeft timeout 0 := by
  rw [sleepsLeft, Nat.add_sub_cancel, sleepsLeft, Nat.sub_zero]

/-- How many steps the loop can still take once shutdown is requested: two
for each worker, three for each sleep, and those up to the drain. -/
def AcceptorPhase.rank (timeout threads clock : ℕ) : AcceptorPhase → ℕ
  | .admitting _ => 2 * threads + 3 * sleepsLeft timeout 0 + 8
  | .reserving _ => 2 * threads + 3 * sleepsLeft timeout 0 + 7
  | .spawning _ => 2 * threads + 3 * sleepsLeft timeout 0 + 6
  | .unreserving => 2 * threads + 3 * sleepsLeft timeout 0 + 4
  | .accepting => 2 * threads + 3 * sleepsLeft timeout 0 + 3
  | .accepted _ => 2 * threads + 3 * sleepsLeft timeout 0 + 2
  | .closing => 2 * threads + 3 * sleepsLeft timeout 0 + 1
  | .draining .polling deadline _ rest _ =>
      2 * rest.length + 3 * sleepsLeft deadline.asNanos clock + 2
  | .draining .expiring deadline _ rest _ =>
      2 * rest.length + 3 * sleepsLeft deadline.asNanos clock + 1
  | .draining .sleeping deadline _ rest _ =>
      2 * rest.length +
        3 * sleepsLeft deadline.asNanos (clock + pollInterval) + 3
  | .returned _ => 0
  | .panicked => 0

theorem rank_settle_le (timeout threads clock : ℕ) (deadline : Instant)
    (handles : List ℕ) (report : ShutdownReport) :
    (settle deadline handles report).rank timeout threads clock ≤
      2 * handles.length + 3 * sleepsLeft deadline.asNanos clock := by
  cases handles with
  | nil => exact Nat.zero_le _
  | cons handle rest =>
      simp only [settle, AcceptorPhase.rank, List.length_cons]
      omega

def TimedServer.rank (config : ServerConfig) (timed : TimedServer) : ℕ :=
  timed.server.acceptor.rank config.drainTimeout.asNanos
    timed.server.connectionThreads.length timed.clock

theorem startDrain_of_step {config : ServerConfig} {server next : Server}
    {now : Instant} (hphase : server.acceptor = .closing)
    (hstep : server.step config (.acceptor (.startDrain now)) = some next) :
    (next = { server with acceptor := .panicked }) ∨
      ∃ deadline : Instant,
        deadline.asNanos = config.drainTimeout.asNanos + now.asNanos ∧
          next = { server with
            acceptor := settle deadline server.connectionThreads ⟨0, 0⟩ } := by
  simp only [Server.step, Server.acceptorStep, hphase, Instant.add,
    Instant.checkedAdd] at hstep
  split at hstep
  next hpanicked =>
    cases hstep
    exact .inl rfl
  next deadline hsum =>
    split at hsum
    next sum hrange =>
      split at hrange
      next =>
        cases hrange
        cases hsum
        cases hstep
        exact .inr ⟨_, rfl, rfl⟩
      next => contradiction
    next => contradiction

theorem rank_lt_of_phases {config : ServerConfig} {timed : TimedServer}
    {phase later : AcceptorPhase} {next : Server} {clock : ℕ}
    (hphase : timed.server.acceptor = phase) (hlater : next.acceptor = later)
    (hrank : later.rank config.drainTimeout.asNanos
        next.connectionThreads.length clock <
      phase.rank config.drainTimeout.asNanos
        timed.server.connectionThreads.length timed.clock) :
    TimedServer.rank config ⟨next, clock⟩ <
      TimedServer.rank config timed := by
  rw [TimedServer.rank, TimedServer.rank, hphase]
  simp only [hlater]
  exact hrank

theorem rank_lt_of_acceptor {config : ServerConfig} {timed : TimedServer}
    {action : AcceptorAction} {next : Server}
    (hflag : timed.server.shutdownFlag = true)
    (hreading : ∀ now, (ServerAction.acceptor action).reading? = some now →
      timed.clock ≤ now.asNanos)
    (hstep : timed.server.step config (.acceptor action) = some next) :
    next.shutdownFlag = true ∧
      TimedServer.rank config ⟨next,
          (ServerAction.acceptor action).clockAfter timed.clock⟩ <
        TimedServer.rank config timed := by
  cases transition_of_step hstep with
  | acceptConnection hphase hpending =>
      exact ⟨hflag, rank_lt_of_phases hphase rfl (Nat.lt_succ_self _)⟩
  | acceptError hphase =>
      exact ⟨hflag, rank_lt_of_phases hphase rfl (Nat.lt_succ_self _)⟩
  | stop hphase hopen =>
      exact ⟨hflag, rank_lt_of_phases hphase rfl (Nat.lt_succ_self _)⟩
  | ignoreError hphase hopen => exact (hopen hflag).elim
  | proceed hphase hopen => exact (hopen hflag).elim
  | refuse hphase hfull =>
      refine ⟨hflag, rank_lt_of_phases hphase rfl ?_⟩
      simp only [AcceptorPhase.rank]
      omega
  | reserve hphase hfree =>
      exact ⟨hflag, rank_lt_of_phases hphase rfl (Nat.lt_succ_self _)⟩
  | takeSlot hphase =>
      exact ⟨hflag, rank_lt_of_phases hphase rfl (Nat.lt_succ_self _)⟩
  | spawnWorker hphase =>
      refine ⟨hflag, rank_lt_of_phases hphase rfl ?_⟩
      simp only [AcceptorPhase.rank, List.length_append,
        List.length_singleton]
      omega
  | failSpawn hphase =>
      refine ⟨hflag, rank_lt_of_phases hphase rfl ?_⟩
      simp only [AcceptorPhase.rank]
      omega
  | returnSlot hphase =>
      exact ⟨hflag, rank_lt_of_phases hphase rfl (Nat.lt_succ_self _)⟩
  | overflow hphase hoverflow =>
      exact ⟨hflag, rank_lt_of_phases hphase rfl (Nat.succ_pos _)⟩
  | @startDrain now _ hphase =>
      rcases startDrain_of_step hphase hstep with hpanicked | hsettled
      · rw [hpanicked]
        exact ⟨hflag, rank_lt_of_phases hphase rfl (Nat.succ_pos _)⟩
      · obtain ⟨deadline, hdeadline, hnext⟩ := hsettled
        rw [hnext]
        have hsleeps : sleepsLeft deadline.asNanos now.asNanos =
            sleepsLeft config.drainTimeout.asNanos 0 := by
          rw [hdeadline, sleepsLeft_start]
        refine ⟨hflag, rank_lt_of_phases hphase rfl ?_⟩
        apply Nat.lt_succ_of_le
        rw [← hsleeps]
        exact rank_settle_le _ _ _ _ _ _
  | unfinished hphase hworker hrunning =>
      exact ⟨hflag, rank_lt_of_phases hphase rfl (Nat.lt_succ_self _)⟩
  | @inTime now deadline handle rest report hphase hearly =>
      refine ⟨hflag, rank_lt_of_phases hphase rfl ?_⟩
      have hfewer : sleepsLeft deadline.asNanos now.asNanos ≤ _ :=
        sleepsLeft_le (hreading now rfl)
      have hsleep := sleepsLeft_sleep (Nat.lt_of_not_le hearly)
      simp only [AcceptorPhase.rank, ServerAction.clockAfter]
      omega
  | wake hphase =>
      exact ⟨hflag, rank_lt_of_phases hphase rfl (Nat.lt_succ_self _)⟩
  | drain hphase hworker hfinished =>
      refine ⟨hflag, rank_lt_of_phases hphase rfl ?_⟩
      exact (rank_settle_le _ _ _ _ _ _).trans_lt
        (Nat.lt_add_of_pos_right Nat.two_pos)
  | @abandon now deadline handle rest report hphase hlate =>
      refine ⟨hflag, rank_lt_of_phases hphase rfl ?_⟩
      have hfewer : sleepsLeft deadline.asNanos now.asNanos ≤ _ :=
        sleepsLeft_le (hreading now rfl)
      apply (rank_settle_le _ _ _ _ _ _).trans_lt
      simp only [AcceptorPhase.rank, ServerAction.clockAfter]
      omega

/-- Every step of the accept loop lowers the rank, and nothing raises it. -/
theorem pays_rank (config : ServerConfig) :
    Pays (fun _ _ => True) (TimedServer.step config)
      (fun timed => timed.server.shutdownFlag = true)
      ServerAction.isAcceptor (TimedServer.rank config) := by
  intro timed action next hflag _ hstep
  obtain ⟨hreading, hserver, hclock⟩ := TimedServer.step_eq_some_iff.mp hstep
  obtain ⟨nextServer, nextClock⟩ := next
  simp only at hserver hclock
  subst hclock
  cases action with
  | acceptor action => exact rank_lt_of_acceptor hflag hreading hserver
  | worker index action =>
      cases transition_of_step hserver with
      | worker hworker hact => exact ⟨hflag, le_rfl⟩
  | connect =>
      cases transition_of_step hserver with
      | connect hlistening => exact ⟨hflag, le_rfl⟩
  | shutdown =>
      cases hserver
      exact ⟨rfl, le_rfl⟩
  | wake connected =>
      cases transition_of_step hserver with
      | connectSelf _ hlistening => exact ⟨hflag, le_rfl⟩
      | failSelf _ => exact ⟨hflag, le_rfl⟩

def AcceptorPhase.canSpawn : AcceptorPhase → Bool
  | .admitting _ => true
  | .reserving _ => true
  | .spawning _ => true
  | _ => false

theorem canSpawn_settle (deadline : Instant) (handles : List ℕ)
    (report : ShutdownReport) :
    (settle deadline handles report).canSpawn = false := by
  cases handles <;> rfl

/-- At most the connection which the loop has in hand is still served. -/
theorem pays_spawn (config : ServerConfig) :
    Pays (fun _ _ => True) (TimedServer.step config)
      (fun timed => timed.server.shutdownFlag = true)
      ServerAction.spawnsWorker
      (fun timed => timed.server.acceptor.canSpawn.toNat) := by
  intro timed action next hflag _ hstep
  obtain ⟨-, hserver, -⟩ := TimedServer.step_eq_some_iff.mp hstep
  obtain ⟨nextServer, nextClock⟩ := next
  simp only at hserver ⊢
  cases transition_of_step hserver with
  | ignoreError hphase hopen => exact (hopen hflag).elim
  | proceed hphase hopen => exact (hopen hflag).elim
  | startDrain hphase =>
      simp [hflag, canSpawn_settle, ServerAction.spawnsWorker]
  | drain hphase hworker hfinished =>
      simp [hflag, canSpawn_settle, ServerAction.spawnsWorker]
  | abandon hphase hlate =>
      simp [hflag, canSpawn_settle, ServerAction.spawnsWorker]
  | worker hworker hact => exact ⟨hflag, le_rfl⟩
  | connect hlistening => exact ⟨hflag, le_rfl⟩
  | shutdown => exact ⟨rfl, le_rfl⟩
  | connectSelf _ hlistening => exact ⟨hflag, le_rfl⟩
  | failSelf _ => exact ⟨hflag, le_rfl⟩
  | _ hphase => simp [hflag, hphase, AcceptorPhase.canSpawn,
      ServerAction.spawnsWorker]

/-! ### Where the loop is -/

/-- The loop has not seen the flag. -/
def AcceptorPhase.isServing : AcceptorPhase → Bool
  | .closing => false
  | .draining _ _ _ _ _ => false
  | .returned _ => false
  | .panicked => false
  | _ => true

theorem requested_of_run {config : ServerConfig} {server : Server}
    {actions : List ServerAction}
    (hrun : execute (Server.step config) Server.initial actions =
      some server) :
    server.acceptor.isServing = true ∨ server.shutdownFlag = true := by
  apply execute_guarded_invariant (fun _ _ => True)
    (fun server : Server => server.acceptor.isServing = true ∨
      server.shutdownFlag = true) _ (.inl rfl)
    (guarded_of_forall fun _ _ _ => trivial) hrun
  intro state action next hstate _ hstep
  have hstopped : ∀ {phase : AcceptorPhase}, state.acceptor = phase →
      phase.isServing = false → state.shutdownFlag = true := by
    intro phase hphase hnot
    rw [hphase, hnot] at hstate
    simpa using hstate
  cases transition_of_step hstep with
  | stop hphase hflag => exact .inr hflag
  | overflow hphase hoverflow => exact .inr (hstopped hphase rfl)
  | startDrain hphase => exact .inr (hstopped hphase rfl)
  | unfinished hphase hworker hrunning => exact .inr (hstopped hphase rfl)
  | inTime hphase hearly => exact .inr (hstopped hphase rfl)
  | wake hphase => exact .inr (hstopped hphase rfl)
  | drain hphase hworker hfinished => exact .inr (hstopped hphase rfl)
  | abandon hphase hlate => exact .inr (hstopped hphase rfl)
  | worker hworker hact => exact hstate
  | connect hlistening => exact hstate
  | shutdown => exact .inr rfl
  | connectSelf hflag hlistening => exact .inr hflag
  | failSelf hflag => exact hstate
  | _ => exact .inl rfl

theorem rank_le_of_isServing (timeout threads clock : ℕ)
    {phase : AcceptorPhase} (hserving : phase.isServing = true) :
    phase.rank timeout threads clock ≤
      2 * threads + 3 * sleepsLeft timeout 0 + 8 := by
  cases phase with
  | closing => contradiction
  | draining stage deadline handle rest report => contradiction
  | returned report => contradiction
  | panicked => contradiction
  | _ =>
      simp only [AcceptorPhase.rank]
      omega

/-- The loop waits for nobody but a client: whatever its clock shows, it has a
next step until it has returned, unless it is at `accept` and the queue is
empty. -/
theorem ReportSound.proceeds {server : Server} (hsound : ReportSound server)
    (config : ServerConfig)
    (hpending : server.acceptor = .accepting → 0 < server.pending)
    (now : Instant) :
    (∃ report, server.acceptor = .returned report) ∨
      server.acceptor = .panicked ∨
        ∃ action next, server.acceptorStep config action = some next ∧
          action ≠ .accept false ∧
          ∀ reading, (ServerAction.acceptor action).reading? = some reading →
            reading = now := by
  unfold Server.acceptorStep
  cases hphase : server.acceptor with
  | accepting =>
      exact .inr (.inr ⟨.accept true, _, if_pos (hpending hphase), nofun,
        nofun⟩)
  | accepted incoming =>
      refine .inr (.inr ⟨.loadFlag, ?_⟩)
      cases incoming <;> cases server.shutdownFlag <;>
        exact ⟨_, rfl, nofun, nofun⟩
  | admitting connection =>
      refine .inr (.inr ⟨.loadActive, ?_⟩)
      by_cases hfull : server.active ≥ config.maxConnections
      · exact ⟨_, if_pos hfull, nofun, nofun⟩
      · exact ⟨_, if_neg hfull, nofun, nofun⟩
  | reserving connection => exact .inr (.inr ⟨.fetchAdd, _, rfl, nofun, nofun⟩)
  | spawning connection => exact .inr (.inr ⟨.spawn true, _, rfl, nofun, nofun⟩)
  | unreserving => exact .inr (.inr ⟨.fetchSub, _, rfl, nofun, nofun⟩)
  | closing =>
      refine .inr (.inr ⟨.startDrain now, ?_⟩)
      cases hsum : now.add config.drainTimeout with
      | panicked =>
          exact ⟨{ server with acceptor := .panicked }, by simp only [hsum],
            nofun, fun _ heq => (Option.some.inj heq).symm⟩
      | returned deadline =>
          exact ⟨{ server with
              acceptor :=
                settle deadline server.connectionThreads ⟨0, 0⟩ },
            by simp only [hsum], nofun, fun _ heq => (Option.some.inj heq).symm⟩
  | draining stage deadline handle rest report =>
      cases stage with
      | polling =>
          obtain ⟨settled, hdrop, -⟩ := hsound.reported (handle :: rest)
            report (by rw [hphase]; rfl)
          have hmem : handle ∈ List.range server.workers.length := by
            apply List.mem_of_mem_drop (i := settled)
            rw [← hdrop]
            exact List.mem_cons_self
          have hworker := List.getElem?_eq_getElem (List.mem_range.mp hmem)
          refine .inr (.inr ⟨.poll, ?_⟩)
          simp only [hworker]
          split
          next => exact ⟨_, rfl, nofun, nofun⟩
          next => exact ⟨_, rfl, nofun, nofun⟩
      | expiring =>
          refine .inr (.inr ⟨.checkDeadline now, ?_⟩)
          by_cases hlate : deadline ≤ now
          · exact ⟨_, if_pos hlate, nofun,
              fun _ heq => (Option.some.inj heq).symm⟩
          · exact ⟨_, if_neg hlate, nofun,
              fun _ heq => (Option.some.inj heq).symm⟩
      | sleeping => exact .inr (.inr ⟨.sleep, _, rfl, nofun, nofun⟩)
  | returned report => exact .inl ⟨report, rfl⟩
  | panicked => exact .inr (.inl rfl)

/-! ## The results -/

/-! ### The connection which wakes the loop -/

/-- From here the loop comes to `accept` before it looks at the flag. -/
def AcceptorPhase.willAccept : AcceptorPhase → Bool
  | .accepting => true
  | .admitting _ => true
  | .reserving _ => true
  | .spawning _ => true
  | .unreserving => true
  | _ => false

theorem willAccept_settle (deadline : Instant) (handles : List ℕ)
    (report : ShutdownReport) :
    (settle deadline handles report).willAccept = false := by
  cases handles <;> rfl

/-- The action brings a connection into the queue. -/
def ServerAction.queues : ServerAction → Bool
  | .connect => true
  | .wake connected => connected
  | _ => false

/-- Shutdown is requested, and the loop will find a connection where it has to
wait for one. -/
structure Woken (server : Server) : Prop where
  flag : server.shutdownFlag = true
  pending : server.acceptor.willAccept = true → 0 < server.pending

namespace Woken

variable {config : ServerConfig} {server next : Server}
  {action : ServerAction}

/-- A step to a place from which the loop does not come to `accept`. -/
theorem leave (hflag : next.shutdownFlag = true)
    (hnot : next.acceptor.willAccept = false) : Woken next where
  flag := hflag
  pending haccept := by
    rw [hnot] at haccept
    contradiction

/-- A step which takes nothing from the queue. -/
theorem keep (hwoken : Woken server)
    (hflag : next.shutdownFlag = server.shutdownFlag)
    (hpending : next.pending = server.pending)
    (haccept : server.acceptor.willAccept = true) : Woken next where
  flag := hflag.trans hwoken.flag
  pending _ := by
    rw [hpending]
    exact hwoken.pending haccept

theorem transition (hwoken : Woken server)
    (htransition : Transition config server action next) : Woken next := by
  have hflag := hwoken.flag
  cases htransition with
  | acceptConnection hphase hpending => exact .leave hflag rfl
  | acceptError hphase => exact .leave hflag rfl
  | stop hphase hrequested => exact .leave hflag rfl
  | ignoreError hphase hopen => exact (hopen hflag).elim
  | proceed hphase hopen => exact (hopen hflag).elim
  | refuse hphase hfull => exact hwoken.keep rfl rfl (by rw [hphase]; rfl)
  | reserve hphase hfree => exact hwoken.keep rfl rfl (by rw [hphase]; rfl)
  | takeSlot hphase => exact hwoken.keep rfl rfl (by rw [hphase]; rfl)
  | spawnWorker hphase => exact hwoken.keep rfl rfl (by rw [hphase]; rfl)
  | failSpawn hphase => exact hwoken.keep rfl rfl (by rw [hphase]; rfl)
  | returnSlot hphase => exact hwoken.keep rfl rfl (by rw [hphase]; rfl)
  | overflow hphase hoverflow => exact .leave hflag rfl
  | startDrain hphase => exact .leave hflag (willAccept_settle _ _ _)
  | unfinished hphase hworker hrunning => exact .leave hflag rfl
  | inTime hphase hearly => exact .leave hflag rfl
  | wake hphase => exact .leave hflag rfl
  | drain hphase hworker hfinished =>
      exact .leave hflag (willAccept_settle _ _ _)
  | abandon hphase hlate => exact .leave hflag (willAccept_settle _ _ _)
  | worker hworker hact => exact ⟨hflag, hwoken.pending⟩
  | connect hlistening => exact ⟨hflag, fun _ => Nat.succ_pos _⟩
  | shutdown => exact ⟨rfl, hwoken.pending⟩
  | connectSelf hrequested hlistening =>
      exact ⟨hflag, fun _ => Nat.succ_pos _⟩
  | failSelf hrequested => exact hwoken

/-- The next connection in the queue wakes the loop, whoever has brought it
there. -/
theorem of_queues (hflag : server.shutdownFlag = true)
    (htransition : Transition config server action next)
    (hqueues : action.queues = true) : Woken next := by
  cases htransition with
  | connect hlistening => exact ⟨hflag, fun _ => Nat.succ_pos _⟩
  | connectSelf hrequested hlistening =>
      exact ⟨hflag, fun _ => Nat.succ_pos _⟩
  | _ => contradiction

end Woken

theorem shutdownFlag_of_step {config : ServerConfig} {server next : Server}
    {action : ServerAction} (hflag : server.shutdownFlag = true)
    (hstep : server.step config action = some next) :
    next.shutdownFlag = true := by
  cases transition_of_step hstep with
  | shutdown => rfl
  | _ => exact hflag

theorem woken_of_run {config : ServerConfig} {server final : Server}
    {actions : List ServerAction} (hflag : server.shutdownFlag = true)
    (hrun : execute (Server.step config) server actions = some final)
    (hqueued : Woken server ∨ ∃ action ∈ actions, action.queues = true) :
    Woken final := by
  induction actions generalizing server with
  | nil =>
      rw [execute_nil, Option.some.injEq] at hrun
      rw [← hrun]
      simpa using hqueued
  | cons action rest ih =>
      obtain ⟨next, hstep, hrest⟩ := execute_cons_eq_some_iff.mp hrun
      have htransition := transition_of_step hstep
      apply ih (shutdownFlag_of_step hflag hstep) hrest
      rcases hqueued with hwoken | ⟨queued, hmem, hqueues⟩
      · exact .inl (hwoken.transition htransition)
      rcases List.mem_cons.mp hmem with rfl | hlater
      · exact .inl (.of_queues hflag htransition hqueues)
      · exact .inr ⟨queued, hlater, hqueues⟩

theorem settle_ne_panicked (deadline : Instant) (handles : List ℕ)
    (report : ShutdownReport) :
    settle deadline handles report ≠ .panicked := by
  cases handles <;> exact nofun

theorem overflow_of_transition {config : ServerConfig}
    {server next : Server} {action : ServerAction}
    (hrunning : server.acceptor ≠ .panicked)
    (htransition : Transition config server action next)
    (hpanicked : next.acceptor = .panicked) :
    ∃ now : Instant, action = .acceptor (.startDrain now) ∧
      now.add config.drainTimeout = .panicked := by
  cases htransition with
  | @overflow now hphase hoverflow => exact ⟨now, rfl, hoverflow⟩
  | startDrain hphase => exact absurd hpanicked (settle_ne_panicked _ _ _)
  | drain hphase hworker hfinished =>
      exact absurd hpanicked (settle_ne_panicked _ _ _)
  | abandon hphase hlate => exact absurd hpanicked (settle_ne_panicked _ _ _)
  | worker hworker hact => exact absurd hpanicked hrunning
  | connect hlistening => exact absurd hpanicked hrunning
  | shutdown => exact absurd hpanicked hrunning
  | connectSelf hflag hlistening => exact absurd hpanicked hrunning
  | failSelf hflag => exact absurd hpanicked hrunning
  | _ => contradiction

/-- The loop unwinds only where the deadline is past what an instant can
be. -/
theorem overflow_of_run {config : ServerConfig} {server final : Server}
    {actions : List ServerAction} (hrunning : server.acceptor ≠ .panicked)
    (hrun : execute (Server.step config) server actions = some final)
    (hpanicked : final.acceptor = .panicked) :
    ∃ now : Instant, .acceptor (.startDrain now) ∈ actions ∧
      now.add config.drainTimeout = .panicked := by
  induction actions generalizing server with
  | nil =>
      rw [execute_nil, Option.some.injEq] at hrun
      exact absurd (hrun ▸ hpanicked) hrunning
  | cons action rest ih =>
      obtain ⟨next, hstep, hrest⟩ := execute_cons_eq_some_iff.mp hrun
      by_cases hnext : next.acceptor = .panicked
      · obtain ⟨now, rfl, hoverflow⟩ :=
          overflow_of_transition hrunning (transition_of_step hstep) hnext
        exact ⟨now, List.mem_cons_self, hoverflow⟩
      · obtain ⟨now, hmem, hoverflow⟩ := ih hnext hrest
        exact ⟨now, List.mem_cons_of_mem _ hmem, hoverflow⟩

/-- What the request to shut down guarantees, whatever the workers do and
however many connections are being served: the accept loop takes no more than
so many further steps and brings at most one more connection into service; it
waits at `accept` only as long as no connection at all has got into the queue
since, that of the request itself included; else it has a next step until it
has returned, or has unwound because of its deadline. -/
structure ShutsDown (config : ServerConfig) (server : Server)
    (actions : List ServerAction) (final : TimedServer) : Prop where
  bounded : actions.countP ServerAction.isAcceptor ≤
    2 * server.connectionThreads.length +
      3 * sleepsLeft config.drainTimeout.asNanos 0 + 8
  served : actions.countP ServerAction.spawnsWorker ≤ 1
  woken : (0 < server.pending ∨ ∃ action ∈ actions, action.queues = true) →
    final.server.acceptor = .accepting → 0 < final.server.pending
  proceeds : ∀ now,
    (final.server.acceptor = .accepting → 0 < final.server.pending) →
    (∃ report, final.server.acceptor = .returned report) ∨
      final.server.acceptor = .panicked ∨
        ∃ action next, final.server.acceptorStep config action = some next ∧
          action ≠ .accept false ∧
          ∀ reading, (ServerAction.acceptor action).reading? = some reading →
            reading = now
  unwound : final.server.acceptor = .panicked →
    ∃ now : Instant, .acceptor (.startDrain now) ∈ actions ∧
      now.add config.drainTimeout = .panicked

theorem shutdown_takes_bounded_steps (config : ServerConfig)
    (earlier actions : List ServerAction) (server : Server) (clock : ℕ)
    (final : TimedServer)
    (hearlier : execute (Server.step config) Server.initial earlier =
      some server)
    (hrunning : server.shutdownFlag = false)
    (hlater : execute (TimedServer.step config) ⟨server, clock⟩
      (.shutdown :: actions) = some final) :
    ShutsDown config server actions final := by
  obtain ⟨requested, hrequest, hrest⟩ := execute_cons_eq_some_iff.mp hlater
  cases hrequest
  have hserving : server.acceptor.isServing = true := by
    rcases requested_of_run hearlier with hserving | hflag
    · exact hserving
    · rw [hrunning] at hflag
      contradiction
  have hunguarded : Guarded (fun _ _ => True) (TimedServer.step config)
      ⟨{ server with shutdownFlag := true }, clock⟩ actions :=
    guarded_of_forall fun _ _ _ => trivial
  have huntimed : execute (Server.step config)
      { server with shutdownFlag := true } actions = some final.server :=
    execute_untimed hrest
  have hwhole : execute (Server.step config) Server.initial
      (earlier ++ ServerAction.shutdown :: actions) = some final.server :=
    execute_append_eq_some_iff.mpr ⟨server, hearlier,
      execute_cons_eq_some_iff.mpr ⟨_, rfl, huntimed⟩⟩
  constructor
  case bounded =>
    have hsteps := countP_add_rank_le (pays_rank config) rfl hunguarded hrest
    have hrank := rank_le_of_isServing config.drainTimeout.asNanos
      server.connectionThreads.length clock hserving
    exact (Nat.le_add_right _ _).trans (hsteps.trans hrank)
  case served =>
    have hspawns := countP_add_rank_le (pays_spawn config) rfl hunguarded
      hrest
    exact (Nat.le_add_right _ _).trans
      (hspawns.trans (Bool.toNat_le _))
  case woken =>
    intro hqueued haccepting
    have hwoken : Woken final.server := by
      apply woken_of_run rfl huntimed
      exact hqueued.imp_left fun hpending => ⟨rfl, fun _ => hpending⟩
    exact hwoken.pending (by rw [haccepting]; rfl)
  case proceeds =>
    intro now hpending
    exact (reportSound_of_run hwhole).proceeds config hpending now
  case unwound =>
    apply overflow_of_run _ huntimed
    intro hpanicked
    rw [hpanicked] at hserving
    contradiction

/-- Shutdown is requested while a connection is being spawned; the worker of
it does not end, and is abandoned at the deadline. -/
def busyActions : List ServerAction :=
  [.connect, .acceptor (.accept true), .acceptor .loadFlag,
    .acceptor .loadActive, .acceptor .fetchAdd]

def busyServer : Server where
  acceptor := .spawning 0
  shutdownFlag := false
  active := 1
  workers := []
  connectionThreads := []
  pending := 0
  accepted := 1
  dropped := []

def noon : Instant where
  asNanos := 12
  inRange := by omega

def lateActions : List ServerAction :=
  [.acceptor (.spawn true), .worker 0 .enter, .wake true,
    .acceptor (.accept true), .acceptor .loadFlag,
    .acceptor (.startDrain noon), .acceptor .poll,
    .acceptor (.checkDeadline noon)]

def abandonedServer : TimedServer where
  server :=
    { acceptor := .returned ⟨0, 1⟩
      shutdownFlag := true
      active := 1
      workers := [⟨0, .serving⟩]
      connectionThreads := [0]
      pending := 0
      accepted := 2
      dropped := [1] }
  clock := 12

theorem abandonedServer_takes_bounded_steps :
    ShutsDown ⟨64, .fromNanos 0⟩ busyServer lateActions abandonedServer :=
  shutdown_takes_bounded_steps ⟨64, .fromNanos 0⟩ busyActions lateActions
    busyServer 0 abandonedServer (by decide +kernel) rfl (by decide +kernel)

/-- The connection is still to be served, or being served. -/
def Service.isOpen : Service → Bool
  | .pending => true
  | .handling _ _ _ => true
  | _ => false

theorem Coherent.open_le {codec : ProtocolCodec} {daemon : Daemon}
    (hcoherent : Coherent codec daemon) :
    daemon.services.countP Service.isOpen ≤
      daemon.server.workers.countP Worker.isRunning := by
  apply IndexedList.countP_le_countP
  intro i service hservice hopen
  have hlt : i < daemon.server.workers.length := by
    rw [← hcoherent.length]
    exact (List.getElem?_eq_some_iff.mp hservice).1
  have hworker := List.getElem?_eq_getElem hlt
  refine ⟨_, hworker, ?_⟩
  have hfits := hcoherent.fits i service _ hservice hworker
  generalize daemon.server.workers[i] = worker at hfits
  have hunfinished : worker.phase ≠ .finished := by
    intro hfinished
    rw [hfinished] at hfits
    cases service with
    | pending => rcases hfits with hfits | hfits <;> contradiction
    | handling reception arrival call => contradiction
    | ended reception call served => contradiction
    | raised => contradiction
  simpa [Worker.isRunning] using hunfinished

/-- What `run` reports covers what it leaves behind: there is one count for
each connection that was given a worker, and no more connections than were
counted as abandoned are unfinished, with no more calls of the handler in
flight. -/
theorem AgentServer.Runs.report_covers_unfinished {self : AgentServer}
    {actions : List DaemonAction} {daemon : Daemon} {report : ShutdownReport}
    (hruns : self.Runs actions daemon)
    (hreturned : daemon.server.acceptor = .returned report) :
    report.drained + report.abandoned = daemon.services.length ∧
      daemon.services.countP Service.isOpen ≤ report.abandoned ∧
      daemon.agent.sessions.countP Call.inFlight ≤ report.abandoned := by
  have hcoherent := hruns.coherent
  have hrunning := (reportSound_of_run hruns.server).returned hreturned
  have hopen := hcoherent.open_le.trans hrunning
  refine ⟨?_, hopen, ?_⟩
  · rw [hcoherent.length]
    apply (serverInvariant_of_run hruns.server).counted.handles
    rw [hreturned]
    rfl
  · apply hcoherent.inFlight_le.trans (le_trans _ hopen)
    apply List.countP_mono_left
    intro service _ hhandling
    cases service with
    | handling reception arrival call => rfl
    | _ => contradiction

/-- The backend has not answered when `run` gives up waiting. -/
def abandonedActions : List DaemonAction :=
  enforcingActions ++
    [.server .shutdown, .server (.wake true),
      .server (.acceptor (.accept true)), .server (.acceptor .loadFlag),
      .server (.acceptor (.startDrain noon)), .server (.acceptor .poll),
      .server (.acceptor (.checkDeadline noon))]

def abandonedDaemon : Daemon :=
  wireServer.finalState abandonedActions (by decide +kernel)

theorem runs_abandonedDaemon :
    wireServer.Runs abandonedActions abandonedDaemon :=
  AgentServer.runs_finalState _

theorem returned_abandonedDaemon :
    abandonedDaemon.server.acceptor = .returned ⟨0, 1⟩ := by
  decide +kernel

theorem abandonedDaemon_report_covers :
    (abandonedDaemon.services.countP Service.isOpen = 1 ∧
      abandonedDaemon.agent.sessions.countP Call.inFlight = 1) ∧
    0 + 1 = abandonedDaemon.services.length ∧
      abandonedDaemon.services.countP Service.isOpen ≤ 1 ∧
      abandonedDaemon.agent.sessions.countP Call.inFlight ≤ 1 :=
  ⟨by decide +kernel,
    runs_abandonedDaemon.report_covers_unfinished returned_abandonedDaemon⟩

end Eltanin.Agent
