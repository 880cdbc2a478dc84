import Eltanin.ServerModel

/-!
# The slots of the accept loop

A slot is taken on the accepting thread and given back by a worker's guard or,
where no worker came to be, by the accepting thread itself.  So at any moment
the counter is the number of those who owe it one, whatever the threads have
been doing; and every connection that was accepted is in the loop's hand, with
its worker, or has been closed.
-/

namespace Eltanin.Agent

open Eltanin.Cli (Instant)
open PartialExecution

/-! ## What a step can do -/

/-- The steps of the accept loop, and of the others. -/
inductive Transition (config : ServerConfig) (server : Server) :
    ServerAction → Server → Prop where
  | acceptConnection (hphase : server.acceptor = .accepting)
      (hpending : 0 < server.pending) :
      Transition config server (.acceptor (.accept true))
        { server with
          acceptor := .accepted (some server.accepted)
          pending := server.pending - 1
          accepted := server.accepted + 1 }
  | acceptError (hphase : server.acceptor = .accepting) :
      Transition config server (.acceptor (.accept false))
        { server with acceptor := .accepted none }
  | stop {incoming : Option ℕ} (hphase : server.acceptor = .accepted incoming)
      (hflag : server.shutdownFlag = true) :
      Transition config server (.acceptor .loadFlag)
        { server with
          acceptor := .closing
          dropped := server.dropped ++ incoming.toList }
  | ignoreError (hphase : server.acceptor = .accepted none)
      (hflag : ¬server.shutdownFlag = true) :
      Transition config server (.acceptor .loadFlag)
        { server with acceptor := .accepting }
  | proceed {connection : ℕ}
      (hphase : server.acceptor = .accepted (some connection))
      (hflag : ¬server.shutdownFlag = true) :
      Transition config server (.acceptor .loadFlag)
        { server with acceptor := .admitting connection }
  | refuse {connection : ℕ} (hphase : server.acceptor = .admitting connection)
      (hfull : config.maxConnections ≤ server.active) :
      Transition config server (.acceptor .loadActive)
        { server with
          acceptor := .accepting
          dropped := server.dropped ++ [connection] }
  | reserve {connection : ℕ}
      (hphase : server.acceptor = .admitting connection)
      (hfree : ¬config.maxConnections ≤ server.active) :
      Transition config server (.acceptor .loadActive)
        { server with acceptor := .reserving connection }
  | takeSlot {connection : ℕ}
      (hphase : server.acceptor = .reserving connection) :
      Transition config server (.acceptor .fetchAdd)
        { server with
          acceptor := .spawning connection
          active := server.active + 1 }
  | spawnWorker {connection : ℕ}
      (hphase : server.acceptor = .spawning connection) :
      Transition config server (.acceptor (.spawn true))
        { server with
          acceptor := .accepting
          workers := server.workers ++ [⟨connection, .spawned⟩]
          connectionThreads :=
            server.connectionThreads ++ [server.workers.length] }
  | failSpawn {connection : ℕ}
      (hphase : server.acceptor = .spawning connection) :
      Transition config server (.acceptor (.spawn false))
        { server with
          acceptor := .unreserving
          dropped := server.dropped ++ [connection] }
  | returnSlot (hphase : server.acceptor = .unreserving) :
      Transition config server (.acceptor .fetchSub)
        { server with
          acceptor := .accepting
          active := server.active - 1 }
  | overflow {now : Instant} (hphase : server.acceptor = .closing)
      (hoverflow : now.add config.drainTimeout = .panicked) :
      Transition config server (.acceptor (.startDrain now))
        { server with acceptor := .panicked }
  | startDrain {now deadline : Instant}
      (hphase : server.acceptor = .closing) :
      Transition config server (.acceptor (.startDrain now))
        { server with
          acceptor := settle deadline server.connectionThreads ⟨0, 0⟩ }
  | unfinished {deadline : Instant} {handle : ℕ} {rest : List ℕ}
      {report : ShutdownReport} {worker : Worker}
      (hphase : server.acceptor =
        .draining .polling deadline handle rest report)
      (hworker : server.workers[handle]? = some worker)
      (hrunning : worker.phase ≠ .finished) :
      Transition config server (.acceptor .poll)
        { server with
          acceptor := .draining .expiring deadline handle rest report }
  | inTime {now deadline : Instant} {handle : ℕ} {rest : List ℕ}
      {report : ShutdownReport}
      (hphase : server.acceptor =
        .draining .expiring deadline handle rest report)
      (hearly : ¬deadline ≤ now) :
      Transition config server (.acceptor (.checkDeadline now))
        { server with
          acceptor := .draining .sleeping deadline handle rest report }
  | wake {deadline : Instant} {handle : ℕ} {rest : List ℕ}
      {report : ShutdownReport}
      (hphase : server.acceptor =
        .draining .sleeping deadline handle rest report) :
      Transition config server (.acceptor .sleep)
        { server with
          acceptor := .draining .polling deadline handle rest report }
  | drain {deadline : Instant} {handle : ℕ} {rest : List ℕ}
      {report : ShutdownReport} {worker : Worker}
      (hphase : server.acceptor =
        .draining .polling deadline handle rest report)
      (hworker : server.workers[handle]? = some worker)
      (hfinished : worker.phase = .finished) :
      Transition config server (.acceptor .poll)
        { server with
          acceptor := settle deadline rest
            { report with drained := report.drained + 1 } }
  | abandon {now deadline : Instant} {handle : ℕ} {rest : List ℕ}
      {report : ShutdownReport}
      (hphase : server.acceptor =
        .draining .expiring deadline handle rest report)
      (hlate : deadline ≤ now) :
      Transition config server (.acceptor (.checkDeadline now))
        { server with
          acceptor := settle deadline rest
            { report with abandoned := report.abandoned + 1 } }
  | worker {index : ℕ} {action : WorkerAction} {worker : Worker}
      {phase : WorkerPhase} {active : UInt64}
      (hworker : server.workers[index]? = some worker)
      (hact : worker.phase.act server.active action = some (phase, active)) :
      Transition config server (.worker index action)
        { server with
          workers := server.workers.set index { worker with phase := phase }
          active := active }
  | connect (hlistening : server.acceptor.isListening = true) :
      Transition config server .connect
        { server with pending := server.pending + 1 }
  | shutdown :
      Transition config server .shutdown
        { server with shutdownFlag := true }
  | connectSelf (hflag : server.shutdownFlag = true)
      (hlistening : server.acceptor.isListening = true) :
      Transition config server (.wake true)
        { server with pending := server.pending + 1 }
  | failSelf (hflag : server.shutdownFlag = true) :
      Transition config server (.wake false) server

section Steps

variable {config : ServerConfig} {server next : Server}
  {action : ServerAction}

theorem enqueue_eq_some_iff :
    server.enqueue = some next ↔ server.acceptor.isListening = true ∧
      next = { server with pending := server.pending + 1 } := by
  unfold Server.enqueue
  by_cases hlistening : server.acceptor.isListening = true
  · rw [if_pos hlistening, Option.some.injEq, eq_comm]
    exact ⟨fun heq => ⟨hlistening, heq⟩, fun h => h.2⟩
  · rw [if_neg hlistening]
    exact ⟨nofun, fun h => absurd h.1 hlistening⟩

theorem transition_of_acceptorStep {action : AcceptorAction}
    (hstep : server.acceptorStep config action = some next) :
    Transition config server (.acceptor action) next := by
  unfold Server.acceptorStep at hstep
  split at hstep
  next hphase =>
    by_cases hpending : 0 < server.pending
    · rw [if_pos hpending] at hstep
      cases hstep
      exact .acceptConnection hphase hpending
    · rw [if_neg hpending] at hstep
      contradiction
  next hphase =>
    cases hstep
    exact .acceptError hphase
  next incoming hphase =>
    by_cases hflag : server.shutdownFlag = true
    · rw [if_pos hflag] at hstep
      cases hstep
      exact .stop hphase hflag
    · rw [if_neg hflag] at hstep
      cases incoming with
      | none =>
          cases hstep
          exact .ignoreError hphase hflag
      | some connection =>
          cases hstep
          exact .proceed hphase hflag
  next connection hphase =>
    by_cases hfull : server.active ≥ config.maxConnections
    · rw [if_pos hfull] at hstep
      cases hstep
      exact .refuse hphase hfull
    · rw [if_neg hfull] at hstep
      cases hstep
      exact .reserve hphase hfull
  next connection hphase =>
    cases hstep
    exact .takeSlot hphase
  next connection hphase =>
    cases hstep
    exact .spawnWorker hphase
  next connection hphase =>
    cases hstep
    exact .failSpawn hphase
  next hphase =>
    cases hstep
    exact .returnSlot hphase
  next now hphase =>
    split at hstep
    next hoverflow =>
      cases hstep
      exact .overflow hphase hoverflow
    next =>
      cases hstep
      exact .startDrain hphase
  next deadline handle rest report hphase =>
    split at hstep
    · contradiction
    next worker hworker =>
      by_cases hfinished : worker.phase = .finished
      · rw [if_pos hfinished] at hstep
        cases hstep
        exact .drain hphase hworker hfinished
      · rw [if_neg hfinished] at hstep
        cases hstep
        exact .unfinished hphase hworker hfinished
  next deadline handle rest report now hphase =>
    by_cases hlate : deadline ≤ now
    · rw [if_pos hlate] at hstep
      cases hstep
      exact .abandon hphase hlate
    · rw [if_neg hlate] at hstep
      cases hstep
      exact .inTime hphase hlate
  next deadline handle rest report hphase =>
    cases hstep
    exact .wake hphase
  next => contradiction

theorem transition_of_step
    (hstep : server.step config action = some next) :
    Transition config server action next := by
  cases action with
  | acceptor action => exact transition_of_acceptorStep hstep
  | worker index action =>
      simp only [Server.step, Server.workerStep] at hstep
      split at hstep
      · contradiction
      next worker hworker =>
        split at hstep
        · contradiction
        next phase active hact =>
          cases hstep
          exact .worker hworker hact
  | connect =>
      obtain ⟨hlistening, rfl⟩ := enqueue_eq_some_iff.mp hstep
      exact .connect hlistening
  | shutdown =>
      cases hstep
      exact .shutdown
  | wake connected =>
      simp only [Server.step] at hstep
      by_cases hflag : server.shutdownFlag = true
      · rw [if_pos hflag] at hstep
        cases connected with
        | true =>
            obtain ⟨hlistening, rfl⟩ := enqueue_eq_some_iff.mp hstep
            exact .connectSelf hflag hlistening
        | false =>
            cases hstep
            exact .failSelf hflag
      · rw [if_neg hflag] at hstep
        contradiction

end Steps

/-! ## Who holds a slot -/

def AcceptorPhase.slots : AcceptorPhase → ℕ
  | .spawning _ => 1
  | .unreserving => 1
  | _ => 0

def WorkerPhase.holdsSlot : WorkerPhase → Bool
  | .spawned => true
  | .serving => true
  | .leaving _ => true
  | .unguarded => false
  | .finished => false

def Worker.holdsSlot (worker : Worker) : Bool := worker.phase.holdsSlot

/-- The connections which hold a slot: one that is being spawned, or whose
spawn has failed and is about to be undone, and those whose workers are not
past their guards. -/
def Server.slotHolders (server : Server) : ℕ :=
  server.acceptor.slots + server.workers.countP Worker.holdsSlot

theorem WorkerPhase.act_cases {phase next : WorkerPhase}
    {active after : UInt64} {action : WorkerAction}
    (hact : phase.act active action = some (next, after)) :
    (action ≠ .dropGuard ∧ after = active ∧
      next.holdsSlot = phase.holdsSlot) ∨
    (action = .dropGuard ∧ after = active - 1 ∧
      phase.holdsSlot = true ∧ next.holdsSlot = false) := by
  unfold WorkerPhase.act at hact
  split at hact
  · cases hact
    exact .inl ⟨nofun, rfl, rfl⟩
  · cases hact
    exact .inl ⟨nofun, rfl, rfl⟩
  · cases hact
    exact .inr ⟨rfl, rfl, rfl, rfl⟩
  · cases hact
    exact .inl ⟨nofun, rfl, rfl⟩
  · contradiction

theorem countP_set_add {workers : List Worker} {index : ℕ} {old : Worker}
    (hold : workers[index]? = some old) (new : Worker) :
    (workers.set index new).countP Worker.holdsSlot + old.holdsSlot.toNat =
      workers.countP Worker.holdsSlot + new.holdsSlot.toNat := by
  obtain ⟨hlt, hget⟩ := List.getElem?_eq_some_iff.mp hold
  have hpos : old.holdsSlot = true → 0 < workers.countP Worker.holdsSlot := by
    intro hholds
    exact List.countP_pos_iff.mpr ⟨old, List.mem_of_getElem? hold, hholds⟩
  rw [List.countP_set hlt, hget]
  cases hbefore : old.holdsSlot with
  | false => cases new.holdsSlot <;> rfl
  | true =>
      have hcount := hpos hbefore
      cases new.holdsSlot with
      | false => exact Nat.sub_add_cancel hcount
      | true =>
          simp only [if_true, Bool.toNat_true]
          omega

/-- The counter is the number of slots taken and has not passed its bound;
where a slot is about to be taken, there is one to take. -/
structure Balanced (config : ServerConfig) (server : Server) : Prop where
  balanced : server.active.toNat = server.slotHolders
  bounded : server.active.toNat ≤ config.maxConnections.toNat
  reserving : ∀ connection, server.acceptor = .reserving connection →
    server.active.toNat < config.maxConnections.toNat

section Counter

variable {config : ServerConfig} {server next : Server}
  {action : ServerAction}

theorem toNat_add_one {count limit : UInt64}
    (hlt : count.toNat < limit.toNat) :
    (count + 1).toNat = count.toNat + 1 := by
  have hlimit := limit.toNat_lt
  rw [UInt64.toNat_add, UInt64.toNat_one, Nat.mod_eq_of_lt (by omega)]

theorem toNat_sub_one {count : UInt64} (hpos : 0 < count.toNat) :
    (count - 1).toNat + 1 = count.toNat := by
  have hle : (1 : UInt64) ≤ count := by
    rw [UInt64.le_iff_toNat_le]
    exact hpos
  rw [UInt64.toNat_sub_of_le _ _ hle, UInt64.toNat_one]
  omega

theorem slots_settle (deadline : Instant) (handles : List ℕ)
    (report : ShutdownReport) :
    (settle deadline handles report).slots = 0 := by
  cases handles <;> rfl

theorem settle_ne_reserving (deadline : Instant) (handles : List ℕ)
    (report : ShutdownReport) (connection : ℕ) :
    settle deadline handles report ≠ .reserving connection := by
  cases handles <;> exact nofun

theorem Balanced.initial : Balanced config Server.initial where
  balanced := rfl
  bounded := Nat.zero_le _
  reserving := nofun

/-- A step of the accept loop which leaves the counter alone and neither
takes nor gives back a slot. -/
theorem Balanced.keep (hbalanced : Balanced config server)
    {phase : AcceptorPhase} (hactive : next.active = server.active)
    (hworkers : next.workers = server.workers)
    (hphase : server.acceptor = phase) (hslots : phase.slots = 0)
    (hnext : next.acceptor.slots = 0)
    (hreserving : ∀ connection, next.acceptor ≠ .reserving connection) :
    Balanced config next where
  balanced := by
    rw [hactive, hbalanced.balanced, Server.slotHolders, Server.slotHolders,
      hworkers, hphase, hslots, hnext]
  bounded := by
    rw [hactive]
    exact hbalanced.bounded
  reserving connection heq := absurd heq (hreserving connection)

theorem Balanced.takeSlot (hbalanced : Balanced config server)
    {connection : ℕ} (hphase : server.acceptor = .reserving connection) :
    Balanced config
      { server with
        acceptor := .spawning connection
        active := server.active + 1 } := by
  have hlt := hbalanced.reserving connection hphase
  have hadd := toNat_add_one hlt
  have hbefore := hbalanced.balanced
  rw [Server.slotHolders, hphase] at hbefore
  simp only [AcceptorPhase.slots] at hbefore
  refine ⟨?_, ?_, nofun⟩
  · simp only [Server.slotHolders, AcceptorPhase.slots, hadd]
    omega
  · simp only [hadd]
    omega

theorem Balanced.returnSlot (hbalanced : Balanced config server)
    (hphase : server.acceptor = .unreserving) :
    (server.active - 1).toNat + 1 = server.active.toNat ∧
      Balanced config
        { server with
          acceptor := .accepting
          active := server.active - 1 } := by
  have hbefore := hbalanced.balanced
  rw [Server.slotHolders, hphase] at hbefore
  simp only [AcceptorPhase.slots] at hbefore
  have hsub : (server.active - 1).toNat + 1 = server.active.toNat :=
    toNat_sub_one (by omega)
  have hbounded := hbalanced.bounded
  refine ⟨hsub, ?_, ?_, nofun⟩
  · simp only [Server.slotHolders, AcceptorPhase.slots]
    omega
  · show (server.active - 1).toNat ≤ config.maxConnections.toNat
    omega

theorem Balanced.worker (hbalanced : Balanced config server)
    {index : ℕ} {action : WorkerAction} {worker : Worker}
    {phase : WorkerPhase} {active : UInt64}
    (hworker : server.workers[index]? = some worker)
    (hact : worker.phase.act server.active action = some (phase, active)) :
    (action = .dropGuard → active.toNat + 1 = server.active.toNat) ∧
      (action ≠ .dropGuard → active = server.active) ∧
      Balanced config
        { server with
          workers := server.workers.set index { worker with phase := phase }
          active := active } := by
  have hcount := countP_set_add hworker { worker with phase := phase }
  have hbefore := hbalanced.balanced
  have hbounded := hbalanced.bounded
  rw [Server.slotHolders] at hbefore
  simp only [Worker.holdsSlot] at hcount
  rcases WorkerPhase.act_cases hact with
    ⟨hother, hactive, hholds⟩ | ⟨hdrop, hactive, hholds, hreleased⟩
  · rw [hholds] at hcount
    refine ⟨fun hdrop => absurd hdrop hother, fun _ => hactive, ?_, ?_, ?_⟩
    · rw [hactive]
      change server.active.toNat = server.acceptor.slots +
        (server.workers.set index _).countP Worker.holdsSlot
      omega
    · rw [hactive]
      exact hbounded
    · rw [hactive]
      exact hbalanced.reserving
  · rw [hholds, hreleased, Bool.toNat_true, Bool.toNat_false] at hcount
    have hsub : (server.active - 1).toNat + 1 = server.active.toNat :=
      toNat_sub_one (by omega)
    refine ⟨fun _ => hactive ▸ hsub, fun hother => absurd hdrop hother,
      ?_, ?_, ?_⟩
    · rw [hactive]
      change (server.active - 1).toNat = server.acceptor.slots +
        (server.workers.set index _).countP Worker.holdsSlot
      omega
    · rw [hactive]
      show (server.active - 1).toNat ≤ config.maxConnections.toNat
      omega
    · intro connection hphase
      have hlt := hbalanced.reserving connection hphase
      rw [hactive]
      show (server.active - 1).toNat < config.maxConnections.toNat
      omega

end Counter

def ServerAction.takesSlot : ServerAction → Bool
  | .acceptor .fetchAdd => true
  | _ => false

def ServerAction.givesSlotBack : ServerAction → Bool
  | .acceptor .fetchSub => true
  | .worker _ .dropGuard => true
  | _ => false

section Runs

variable {config : ServerConfig} {server next : Server}
  {action : ServerAction}

/-- Every step keeps the balance, and the counter moves by one exactly where a
slot is taken or given back. -/
theorem Balanced.transition (hbalanced : Balanced config server)
    (htransition : Transition config server action next) :
    Balanced config next ∧
      next.active.toNat + action.givesSlotBack.toNat =
        server.active.toNat + action.takesSlot.toNat := by
  cases htransition with
  | acceptConnection hphase hpending =>
      exact ⟨hbalanced.keep rfl rfl hphase rfl rfl nofun, rfl⟩
  | acceptError hphase =>
      exact ⟨hbalanced.keep rfl rfl hphase rfl rfl nofun, rfl⟩
  | stop hphase hflag =>
      exact ⟨hbalanced.keep rfl rfl hphase rfl rfl nofun, rfl⟩
  | ignoreError hphase hflag =>
      exact ⟨hbalanced.keep rfl rfl hphase rfl rfl nofun, rfl⟩
  | proceed hphase hflag =>
      exact ⟨hbalanced.keep rfl rfl hphase rfl rfl nofun, rfl⟩
  | refuse hphase hfull =>
      exact ⟨hbalanced.keep rfl rfl hphase rfl rfl nofun, rfl⟩
  | @reserve connection hphase hfree =>
      have hlt : server.active.toNat < config.maxConnections.toNat := by
        rw [UInt64.le_iff_toNat_le] at hfree
        exact Nat.lt_of_not_le hfree
      have hbefore := hbalanced.balanced
      rw [Server.slotHolders, hphase] at hbefore
      exact ⟨⟨hbefore, hbalanced.bounded, fun _ _ => hlt⟩, rfl⟩
  | @takeSlot connection hphase =>
      have hlt := hbalanced.reserving connection hphase
      exact ⟨hbalanced.takeSlot hphase, toNat_add_one hlt⟩
  | @spawnWorker connection hphase =>
      have hbefore := hbalanced.balanced
      rw [Server.slotHolders, hphase] at hbefore
      simp only [AcceptorPhase.slots] at hbefore
      refine ⟨⟨?_, hbalanced.bounded, nofun⟩, rfl⟩
      simp only [Server.slotHolders, AcceptorPhase.slots,
        List.countP_append, List.countP_singleton]
      simp only [Worker.holdsSlot, WorkerPhase.holdsSlot, if_true] at hbefore ⊢
      omega
  | failSpawn hphase =>
      have hbefore := hbalanced.balanced
      rw [Server.slotHolders, hphase] at hbefore
      exact ⟨⟨hbefore, hbalanced.bounded, nofun⟩, rfl⟩
  | returnSlot hphase =>
      obtain ⟨hsub, hnext⟩ := hbalanced.returnSlot hphase
      exact ⟨hnext, hsub⟩
  | overflow hphase hoverflow =>
      exact ⟨hbalanced.keep rfl rfl hphase rfl rfl nofun, rfl⟩
  | startDrain hphase =>
      exact ⟨hbalanced.keep rfl rfl hphase rfl (slots_settle _ _ _)
        (settle_ne_reserving _ _ _), rfl⟩
  | unfinished hphase hworker hrunning =>
      exact ⟨hbalanced.keep rfl rfl hphase rfl rfl nofun, rfl⟩
  | inTime hphase hearly =>
      exact ⟨hbalanced.keep rfl rfl hphase rfl rfl nofun, rfl⟩
  | wake hphase =>
      exact ⟨hbalanced.keep rfl rfl hphase rfl rfl nofun, rfl⟩
  | drain hphase hworker hfinished =>
      exact ⟨hbalanced.keep rfl rfl hphase rfl (slots_settle _ _ _)
        (settle_ne_reserving _ _ _), rfl⟩
  | abandon hphase hlate =>
      exact ⟨hbalanced.keep rfl rfl hphase rfl (slots_settle _ _ _)
        (settle_ne_reserving _ _ _), rfl⟩
  | @worker index action worker phase active hworker hact =>
      obtain ⟨hdropped, hkept, hnext⟩ := hbalanced.worker hworker hact
      refine ⟨hnext, ?_⟩
      cases action with
      | enter => exact congrArg UInt64.toNat (hkept nofun)
      | serve panicked => exact congrArg UInt64.toNat (hkept nofun)
      | dropGuard => exact hdropped rfl
      | finish => exact congrArg UInt64.toNat (hkept nofun)
  | failSelf hflag => exact ⟨hbalanced, rfl⟩
  | _ =>
      exact ⟨⟨hbalanced.balanced, hbalanced.bounded, hbalanced.reserving⟩,
        rfl⟩

/-! ## Where every connection is -/

def AcceptorPhase.inHand : AcceptorPhase → List ℕ
  | .accepted incoming => incoming.toList
  | .admitting connection => [connection]
  | .reserving connection => [connection]
  | .spawning connection => [connection]
  | _ => []

/-- The connections in the loop's hand, those with a worker, and those that
were closed without service. -/
def Server.connections (server : Server) : List ℕ :=
  server.acceptor.inHand ++
    (server.workers.map Worker.connection ++ server.dropped)

/-- Every connection that was accepted is at one of these places, once. -/
def Accounted (server : Server) : Prop :=
  server.connections.Perm (List.range server.accepted)

theorem inHand_settle (deadline : Instant) (handles : List ℕ)
    (report : ShutdownReport) :
    (settle deadline handles report).inHand = [] := by
  cases handles <;> rfl

theorem Accounted.initial : Accounted Server.initial := List.Perm.refl _

/-- A step after which the connections are at the same places. -/
theorem Accounted.keep (haccounted : Accounted server)
    {phase : AcceptorPhase} (hphase : server.acceptor = phase)
    (hhand : next.acceptor.inHand = phase.inHand)
    (hworkers : next.workers.map Worker.connection =
      server.workers.map Worker.connection)
    (hdropped : next.dropped = server.dropped)
    (haccepted : next.accepted = server.accepted) :
    Accounted next := by
  rw [Accounted, Server.connections, hhand, hworkers, hdropped, haccepted,
    ← hphase]
  exact haccounted

/-- A step which closes what is in the loop's hand. -/
theorem Accounted.drop (haccounted : Accounted server)
    {phase later : AcceptorPhase} (hphase : server.acceptor = phase)
    (hlater : later.inHand = []) :
    Accounted
      { server with
        acceptor := later
        dropped := server.dropped ++ phase.inHand } := by
  rw [Accounted, Server.connections, hphase] at haccounted
  rw [Accounted, Server.connections]
  simp only [hlater, List.nil_append]
  rw [← List.append_assoc]
  exact List.perm_append_comm.trans haccounted

theorem Accounted.transition (haccounted : Accounted server)
    (htransition : Transition config server action next) :
    Accounted next := by
  cases htransition with
  | acceptConnection hphase hpending =>
      rw [Accounted, Server.connections, hphase] at haccounted
      rw [Accounted, Server.connections, List.range_succ]
      exact (List.Perm.cons _ haccounted).trans
        (List.perm_append_singleton _ _).symm
  | acceptError hphase => exact haccounted.keep hphase rfl rfl rfl rfl
  | stop hphase hflag => exact haccounted.drop hphase rfl
  | ignoreError hphase hflag => exact haccounted.keep hphase rfl rfl rfl rfl
  | proceed hphase hflag => exact haccounted.keep hphase rfl rfl rfl rfl
  | refuse hphase hfull => exact haccounted.drop hphase rfl
  | reserve hphase hfree => exact haccounted.keep hphase rfl rfl rfl rfl
  | takeSlot hphase => exact haccounted.keep hphase rfl rfl rfl rfl
  | spawnWorker hphase =>
      rw [Accounted, Server.connections, hphase] at haccounted
      rw [Accounted, Server.connections]
      simp only [List.map_append, List.map_cons, List.map_nil,
        List.append_assoc, List.singleton_append]
      exact List.perm_middle.trans haccounted
  | failSpawn hphase => exact haccounted.drop hphase rfl
  | returnSlot hphase => exact haccounted.keep hphase rfl rfl rfl rfl
  | overflow hphase hoverflow => exact haccounted.keep hphase rfl rfl rfl rfl
  | startDrain hphase =>
      exact haccounted.keep hphase (inHand_settle _ _ _) rfl rfl rfl
  | unfinished hphase hworker hrunning =>
      exact haccounted.keep hphase rfl rfl rfl rfl
  | inTime hphase hearly => exact haccounted.keep hphase rfl rfl rfl rfl
  | wake hphase => exact haccounted.keep hphase rfl rfl rfl rfl
  | drain hphase hworker hfinished =>
      exact haccounted.keep hphase (inHand_settle _ _ _) rfl rfl rfl
  | abandon hphase hlate =>
      exact haccounted.keep hphase (inHand_settle _ _ _) rfl rfl rfl
  | @worker index action worker phase active hworker hact =>
      have hconnections :
          (server.workers.set index { worker with phase := phase }).map
              Worker.connection = server.workers.map Worker.connection := by
        have hmapped : (server.workers.map Worker.connection)[index]? =
            some worker.connection := by
          rw [List.getElem?_map, hworker]
          rfl
        obtain ⟨hlt, hget⟩ := List.getElem?_eq_some_iff.mp hmapped
        have hself := List.set_getElem_self hlt
        rw [hget] at hself
        rw [List.map_set]
        exact hself
      exact haccounted.keep rfl rfl hconnections rfl rfl
  | _ => exact haccounted.keep rfl rfl rfl rfl rfl

/-! ## What is reported -/

/-- How many handles `drain` has been given, while it runs and afterwards. -/
def AcceptorPhase.handles? : AcceptorPhase → Option ℕ
  | .draining _ _ _ rest report =>
      some (rest.length + 1 + (report.drained + report.abandoned))
  | .returned report => some (report.drained + report.abandoned)
  | _ => none

/-- There is one handle for each worker, and none gets lost in `drain`. -/
structure Counted (server : Server) : Prop where
  threads : server.connectionThreads.length = server.workers.length
  handles : ∀ count, server.acceptor.handles? = some count →
    count = server.workers.length

theorem handles?_settle (deadline : Instant) (handles : List ℕ)
    (report : ShutdownReport) :
    (settle deadline handles report).handles? =
      some (handles.length + (report.drained + report.abandoned)) := by
  cases handles with
  | nil => rw [List.length_nil, Nat.zero_add]; rfl
  | cons handle rest => rfl

theorem Counted.initial : Counted Server.initial := ⟨rfl, nofun⟩

/-- A step outside of `drain` which spawns no worker. -/
theorem Counted.keep (hcounted : Counted server)
    (hthreads : next.connectionThreads = server.connectionThreads)
    (hworkers : next.workers.length = server.workers.length)
    (hhandles : next.acceptor.handles? = none) :
    Counted next where
  threads := by rw [hthreads, hworkers, hcounted.threads]
  handles count hcount := by
    rw [hhandles] at hcount
    exact nomatch hcount

/-- A step of `drain`. -/
theorem Counted.advance (hcounted : Counted server)
    {phase later : AcceptorPhase} {count : ℕ}
    (hphase : server.acceptor = phase) (hbefore : phase.handles? = some count)
    (hlater : later.handles? = some count) :
    Counted { server with acceptor := later } where
  threads := hcounted.threads
  handles other hother := by
    rw [hlater, Option.some.injEq] at hother
    rw [← hphase] at hbefore
    rw [← hother]
    exact hcounted.handles count hbefore

theorem Counted.transition (hcounted : Counted server)
    (htransition : Transition config server action next) :
    Counted next := by
  cases htransition with
  | acceptConnection hphase hpending => exact hcounted.keep rfl rfl rfl
  | acceptError hphase => exact hcounted.keep rfl rfl rfl
  | stop hphase hflag => exact hcounted.keep rfl rfl rfl
  | ignoreError hphase hflag => exact hcounted.keep rfl rfl rfl
  | proceed hphase hflag => exact hcounted.keep rfl rfl rfl
  | refuse hphase hfull => exact hcounted.keep rfl rfl rfl
  | reserve hphase hfree => exact hcounted.keep rfl rfl rfl
  | takeSlot hphase => exact hcounted.keep rfl rfl rfl
  | spawnWorker hphase =>
      refine ⟨?_, nofun⟩
      simp only [List.length_append, List.length_singleton,
        hcounted.threads]
  | failSpawn hphase => exact hcounted.keep rfl rfl rfl
  | returnSlot hphase => exact hcounted.keep rfl rfl rfl
  | overflow hphase hoverflow => exact hcounted.keep rfl rfl rfl
  | startDrain hphase =>
      refine ⟨hcounted.threads, ?_⟩
      intro count hcount
      rw [handles?_settle, Option.some.injEq] at hcount
      rw [← hcount]
      exact hcounted.threads
  | unfinished hphase hworker hrunning =>
      exact hcounted.advance hphase rfl rfl
  | inTime hphase hearly => exact hcounted.advance hphase rfl rfl
  | wake hphase => exact hcounted.advance hphase rfl rfl
  | drain hphase hworker hfinished =>
      apply hcounted.advance hphase rfl
      rw [handles?_settle]
      simp only [Option.some.injEq]
      omega
  | abandon hphase hlate =>
      apply hcounted.advance hphase rfl
      rw [handles?_settle]
      simp only [Option.some.injEq]
      omega
  | worker hworker hact =>
      refine ⟨?_, ?_⟩
      · rw [List.length_set]
        exact hcounted.threads
      · rw [List.length_set]
        exact hcounted.handles
  | _ => exact ⟨hcounted.threads, hcounted.handles⟩

/-! ## Whole runs -/

/-- A connection is closed without service where there is no slot for it, no
thread for it, or no more service at all. -/
theorem Balanced.dropped (hbalanced : Balanced config server)
    (htransition : Transition config server action next)
    (hdropped : next.dropped ≠ server.dropped) :
    server.active = config.maxConnections ∨
      action = .acceptor (.spawn false) ∨ server.shutdownFlag = true := by
  cases htransition with
  | stop hphase hflag => exact .inr (.inr hflag)
  | refuse hphase hfull =>
      have hbounded := UInt64.le_iff_toNat_le.mpr hbalanced.bounded
      exact .inl (UInt64.le_antisymm hbounded hfull)
  | failSpawn hphase => exact .inr (.inl rfl)
  | _ => exact absurd rfl hdropped

structure ServerInvariant (config : ServerConfig) (server : Server) :
    Prop where
  balanced : Balanced config server
  accounted : Accounted server
  counted : Counted server

theorem serverInvariant_of_run {actions : List ServerAction}
    (hrun : execute (Server.step config) Server.initial actions =
      some server) :
    ServerInvariant config server := by
  apply execute_guarded_invariant (fun _ _ => True) (ServerInvariant config)
    _ ⟨Balanced.initial, Accounted.initial, Counted.initial⟩
    (guarded_of_forall fun _ _ _ => trivial) hrun
  intro state action next hstate _ hstep
  have htransition := transition_of_step hstep
  exact ⟨(hstate.balanced.transition htransition).1,
    hstate.accounted.transition htransition,
    hstate.counted.transition htransition⟩

end Runs

/-- What holds of the slots at any moment of a run and for its next step: the
counter is the number of connections that hold a slot and is within its bound;
it moves by one where a slot is taken or given back, and nowhere else; every
accepted connection is in one place, and is closed without service only for a
reason; and the report counts every worker. -/
structure SlotsKept (config : ServerConfig) (server : Server) : Prop where
  balanced : server.active.toNat = server.slotHolders
  bounded : server.active.toNat ≤ config.maxConnections.toNat
  moved : ∀ action next, server.step config action = some next →
    next.active.toNat + action.givesSlotBack.toNat =
      server.active.toNat + action.takesSlot.toNat
  accounted : server.connections.Perm (List.range server.accepted)
  dropped : ∀ action next, server.step config action = some next →
    next.dropped ≠ server.dropped →
    server.active = config.maxConnections ∨
      action = .acceptor (.spawn false) ∨ server.shutdownFlag = true
  reported : ∀ report, server.acceptor = .returned report →
    report.drained + report.abandoned = server.workers.length

theorem slots_kept_in_every_run (config : ServerConfig) (server : Server)
    (actions : List ServerAction)
    (hrun : execute (Server.step config) Server.initial actions =
      some server) :
    SlotsKept config server := by
  have hinvariant := serverInvariant_of_run hrun
  have hbalanced := hinvariant.balanced
  refine ⟨hbalanced.balanced, hbalanced.bounded, ?_, hinvariant.accounted,
    ?_, ?_⟩
  · intro action next hstep
    exact (hbalanced.transition (transition_of_step hstep)).2
  · intro action next hstep hdropped
    exact hbalanced.dropped (transition_of_step hstep) hdropped
  · intro report hreturned
    apply hinvariant.counted.handles
    rw [hreturned]
    rfl

/-- A connection is served until its service panics, and the next one comes
after the request to shut down. -/
def servedThenStopped : List ServerAction :=
  [.connect, .acceptor (.accept true), .acceptor .loadFlag,
    .acceptor .loadActive, .acceptor .fetchAdd, .acceptor (.spawn true),
    .worker 0 .enter, .worker 0 (.serve true), .shutdown, .wake true,
    .acceptor (.accept true),
    .worker 0 .dropGuard, .acceptor .loadFlag,
    .acceptor (.startDrain ⟨0, by decide⟩), .worker 0 .finish,
    .acceptor .poll]

def servedThenStoppedServer : Server where
  acceptor := .returned ⟨1, 0⟩
  shutdownFlag := true
  active := 0
  workers := [⟨0, .finished⟩]
  connectionThreads := [0]
  pending := 0
  accepted := 2
  dropped := [1]

theorem slots_kept_in_servedThenStopped :
    SlotsKept ⟨64, ⟨0, by decide⟩⟩ servedThenStoppedServer :=
  slots_kept_in_every_run ⟨64, ⟨0, by decide⟩⟩ servedThenStoppedServer
    servedThenStopped rfl

end Eltanin.Agent
