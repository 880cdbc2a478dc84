import Eltanin.LeaseLedger

/-!
# The agent refines the ledger

Forgetting phases, clocks and replies turns every action of the agent into a
few entries of the ledger, or into none.  What the ledger keeps invariant
therefore holds in every state any interleaving of calls can reach.
-/

namespace Eltanin.Agent

open Eltanin.Core Backend Protocol EventLog InterleavedSessions
  AuthorizationHandler

/-- The lease in the hands of a call.  A call which unwound out of the backend
never gives its lease back. -/
def Phase.held? : Phase → Option ComputeLease
  | .issued lease => some lease
  | .enforced lease _ => some lease
  | .timed lease _ => some lease
  | .unwound held => held
  | _ => none

def ledgerOf (agent : AgentState) : Ledger where
  state := agent.shared
  held i := (agent.sessions[i]?).bind fun call => call.phase.held?
  transcript := agent.transcript

namespace Ledger

/-- Append the entries of one action of call `i`. -/
def enterAll (ledger : Ledger) (i : ℕ) (state : LeaseState)
    (held : Option ComputeLease) (events : List Happening) : Ledger where
  state := state
  held := Function.update ledger.held i held
  transcript := ledger.transcript ++ events.map (i, ·)

variable {ledger : Ledger} {i : ℕ} {state middle : LeaseState}
  {held between : Option ComputeLease} {event : Happening}
  {events : List Happening}

theorem enterAll_nil :
    ledger.enterAll i ledger.state (ledger.held i) [] = ledger := by
  simp [enterAll]

theorem enterAll_append_singleton :
    (ledger.enterAll i middle between events).enter i state held event =
      ledger.enterAll i state held (events ++ [event]) := by
  simp [enterAll, enter]

theorem held_enterAll :
    (ledger.enterAll i state held events).held i = held := by
  simp [enterAll]

end Ledger

theorem held_ledgerOf {agent : AgentState} {i : ℕ} {call : Call}
    (hcall : agent.sessions[i]? = some call) :
    (ledgerOf agent).held i = call.phase.held? := by
  simp [ledgerOf, hcall]

theorem ledgerOf_advance {agent : AgentState} {i : ℕ} {call after : Call}
    {next : LeaseState} {events : List Happening}
    (hcall : agent.sessions[i]? = some call) :
    ledgerOf (agent.advance i next after events) =
      (ledgerOf agent).enterAll i next after.phase.held? events := by
  have hlt : i < agent.sessions.length :=
    (List.getElem?_eq_some_iff.mp hcall).1
  have hheld : (ledgerOf (agent.advance i next after events)).held =
      Function.update (ledgerOf agent).held i after.phase.held? := by
    funext j
    by_cases hj : j = i
    · subst hj
      simp [ledgerOf, System.advance, hlt]
    · simp [ledgerOf, System.advance, hj, List.getElem?_set_ne (Ne.symm hj)]
  rw [Ledger.enterAll, ← hheld]
  rfl

theorem ledgerOf_enroll (agent : AgentState) (peer : PeerContext)
    (request : ClientRequest) :
    ledgerOf (agent.enroll ⟨peer, request, .arrived⟩) = ledgerOf agent := by
  have hheld :
      (ledgerOf (agent.enroll ⟨peer, request, .arrived⟩)).held =
        (ledgerOf agent).held := by
    funext j
    simp only [ledgerOf, System.enroll, List.getElem?_append]
    by_cases hlt : j < agent.sessions.length
    · simp [hlt]
    · have hnone : agent.sessions[j]? = none :=
        List.getElem?_eq_none (Nat.not_lt.mp hlt)
      simp only [hlt, if_false, hnone, Option.bind_none]
      cases hindex : j - agent.sessions.length with
      | zero => rfl
      | succ rest => simp
  exact congrArg
    (fun held => (⟨agent.shared, held, agent.transcript⟩ : Ledger)) hheld

/-! ## One action, entry by entry -/

abbrev LedgerSteps (handler : AuthorizationHandler) :
    Ledger → Ledger → Prop :=
  Relation.ReflTransGen (LedgerStep handler)

section Entries

variable {handler : AuthorizationHandler} {ledger : Ledger} {i : ℕ}
  {state : LeaseState} {held : Option ComputeLease} {events : List Happening}

theorem ledgerSteps_idle :
    LedgerSteps handler ledger
      (ledger.enterAll i ledger.state (ledger.held i) []) := by
  rw [Ledger.enterAll_nil]

theorem ledgerSteps_prune (now : MonotonicTime) :
    LedgerSteps handler ledger
      (ledger.enterAll i (ledger.state.prune now) (ledger.held i)
        [.pruned now]) :=
  .single .prune

theorem LedgerSteps.tail_enter {next : LeaseState}
    {after : Option ComputeLease} {event : Happening}
    (hsteps : LedgerSteps handler ledger
      (ledger.enterAll i state held events))
    (hstep : LedgerStep handler (ledger.enterAll i state held events)
      ((ledger.enterAll i state held events).enter i next after event)) :
    LedgerSteps handler ledger
      (ledger.enterAll i next after (events ++ [event])) := by
  rw [Ledger.enterAll_append_singleton] at hstep
  exact hsteps.tail hstep

theorem LedgerSteps.tail_note {event : Happening}
    (hsteps : LedgerSteps handler ledger
      (ledger.enterAll i state held events))
    (hquiet : event.IsQuiet) :
    LedgerSteps handler ledger
      (ledger.enterAll i state held (events ++ [event])) := by
  apply hsteps.tail_enter
  have hnote : LedgerStep handler (ledger.enterAll i state held events) _ :=
    .note (i := i) hquiet
  rw [Ledger.held_enterAll] at hnote
  exact hnote

theorem LedgerSteps.tail_release {id : LeaseId} {lease : ComputeLease}
    (hsteps : LedgerSteps handler ledger
      (ledger.enterAll i state held events))
    (hstored : state.get id = some lease) :
    LedgerSteps handler ledger
      (ledger.enterAll i ((state.revoke id).1.remove id) held
        (events ++ [.released id])) := by
  apply hsteps.tail_enter
  have hrelease : LedgerStep handler
      (ledger.enterAll i state held events) _ :=
    .release (i := i) hstored
  rw [Ledger.held_enterAll] at hrelease
  exact hrelease

end Entries

theorem Withdraws.held?_eq {lease : ComputeLease} {phase : Phase}
    {outcome : AuthorizationOutcome}
    (hwithdraws : Withdraws lease phase outcome) :
    phase.held? = some lease := by
  cases hwithdraws <;> rfl

theorem Phase.held?_ofCompletion (completion : Completion Conclusion) :
    (Phase.ofCompletion completion).held? = none := by
  cases completion <;> rfl

/-- Every action of a call is a sequence of ledger entries. -/
theorem CallTransition.ledgerSteps {handler : AuthorizationHandler}
    {ledger : Ledger} {call : Call} {action : CallAction}
    {next : LeaseState} {phase : Phase} {new : List Happening} {i : ℕ}
    (hheld : ledger.held i = call.phase.held?)
    (htransition :
      CallTransition handler ledger.state call action next phase new) :
    LedgerSteps handler ledger
      (ledger.enterAll i next phase.held? new) := by
  have hidle : LedgerSteps handler ledger
      (ledger.enterAll i ledger.state call.phase.held? []) :=
    hheld ▸ ledgerSteps_idle
  have hprune : ∀ now, LedgerSteps handler ledger
      (ledger.enterAll i (ledger.state.prune now) call.phase.held?
        [.pruned now]) :=
    fun now => hheld ▸ ledgerSteps_prune now
  cases htransition with
  | status harrived hrequest =>
      rw [harrived] at hidle
      exact hidle
  | requestRefused harrived hrequest hpeer =>
      rw [harrived] at hidle
      exact hidle
  | issued harrived hrequest hpeer hroom hissued =>
      rw [harrived] at hprune
      exact (hprune _).tail_enter
        (.issue Ledger.held_enterAll hroom hissued)
  | issueFailed harrived hrequest hpeer hfailed =>
      rw [harrived] at hprune
      exact hprune _
  | issuePanicked harrived hrequest hpeer hpanicked =>
      rw [harrived] at hprune
      exact hprune _
  | enforced hissued =>
      rw [hissued] at hidle
      exact hidle.tail_note trivial
  | enforcePanicked hissued =>
      rw [hissued] at hidle
      exact hidle.tail_note trivial
  | timed henforced =>
      rw [henforced] at hidle
      exact hidle.tail_note trivial
  | granted htimed hpositive =>
      rw [htimed] at hheld
      exact .single (.insert hheld)
  | withdrawn hwithdraws =>
      rw [hwithdraws.held?_eq] at hheld
      exact .single (.compensate hheld)
  | releaseRefusedUnlocked harrived hrequest hpeer =>
      rw [harrived] at hidle
      exact hidle
  | releaseRefused harrived hrequest hpeer hnot hrefused =>
      rw [harrived] at hprune
      exact hprune _
  | released harrived hrequest hpeer hreleasable =>
      rw [harrived] at hprune
      rw [Phase.held?_ofCompletion]
      have hsteps := (hprune _).tail_release hreleasable.1
      cases teardownReply _ _ _ with
      | none => exact hsteps
      | some reply => exact hsteps.tail_note trivial
  | recorded hconcluded =>
      rw [hconcluded] at hidle
      exact hidle.tail_note trivial

theorem AuthorizationHandler.Runs.ledgerInvariant
    {handler : AuthorizationHandler} {actions : List AgentAction}
    {agent : AgentState} (hruns : handler.Runs actions agent) :
    LedgerInvariant handler (ledgerOf agent) := by
  refine Program.run_invariant
    (fun agent : AgentState => LedgerInvariant handler (ledgerOf agent))
    ?_ ?_ ?_ hruns
  · intro agent opening hinvariant
    have hsame := ledgerOf_enroll agent opening.1 opening.2
    exact hsame ▸ hinvariant
  · intro agent i action call next after new hinvariant hcall hact
    obtain ⟨phase, hafter, htransition⟩ := reaches_of_act hact
    rw [ledgerOf_advance hcall, hafter]
    exact hinvariant.steps
      (htransition.ledgerSteps (held_ledgerOf hcall))
  · exact LedgerInvariant.initial

end Eltanin.Agent
