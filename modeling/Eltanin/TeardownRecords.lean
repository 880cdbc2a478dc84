import Eltanin.AuthorizationConsistency
import Eltanin.AuthorizationTeardown

/-!
# What a release record says about the teardown

A release records its revocation and what came of the backend's teardown as an
`Option`, into which `.ok()` has turned the backend's `Result`.  An error is
dropped on the way, so a teardown which failed leaves the record of one which
was not attempted.  Records tell two releases apart as soon as one of the
teardowns succeeded, and otherwise only where there is nothing to tell.
-/

namespace Eltanin.Agent

open Eltanin.Core Backend Protocol AuthorizationHandler

/-- A run of `handle_release_lease` in a state which its handler has reached,
with the reply the backend would give to a teardown. -/
structure ReleaseRun where
  handler : AuthorizationHandler
  actions : List AgentAction
  agent : AgentState
  reached : handler.Runs actions agent
  request : ReleaseRequest
  observed : ExecutionContext
  now : MonotonicTime
  backend : Completion BackendReply

namespace ReleaseRun

def result (self : ReleaseRun) : ReleaseSection :=
  handleReleaseLease self.agent.shared self.request self.observed self.now
    self.backend

/-- The outcome which is recorded, when the handler function returns. -/
def recorded (self : ReleaseRun) : Option AuthorizationOutcome :=
  match self.result.completion with
  | .returned conclusion => some conclusion.outcome
  | .panicked => none

def EndsInReleased (self : ReleaseRun) : Prop :=
  ∃ revocation backend, self.result.completion =
    .returned ⟨.released revocation backend, .leaseReleased .released⟩

/-- What `backend.revoke` returned, where it was called. -/
def called (self : ReleaseRun) : Option (Completion BackendReply) :=
  match self.result.tornDown with
  | none => none
  | some _ => some self.backend

/-- The reply a teardown gets: none when another unexpired lease on the
resource is stored. -/
def teardown (self : ReleaseRun) : Option (Completion BackendReply) :=
  teardownReply (self.agent.shared.prune self.now) self.request.leaseId
    self.backend

/-- The teardown is attempted, and the backend reports a result. -/
def TeardownSucceeds (self : ReleaseRun) : Prop :=
  ∃ result, self.teardown = some (.returned (.ok result))

end ReleaseRun

/-- Equal records come from equal teardowns: not attempted in either run, or
attempted in both with the same `Result`. -/
def RecordsTell (first second : ReleaseRun) : Prop :=
  first.recorded = second.recorded → first.called = second.called

namespace ReleaseRun

theorem EndsInReleased.exists_releasable {run : ReleaseRun}
    (hreleased : run.EndsInReleased) :
    ∃ lease, Releasable run.agent.shared run.request run.observed run.now
      lease := by
  by_contra hnone
  have hnot : ∀ lease, ¬Releasable run.agent.shared run.request run.observed
      run.now lease := fun lease hlease => hnone ⟨lease, hlease⟩
  obtain ⟨conclusion, hrefused, hresult⟩ :=
    handleReleaseLease_of_not_releasable hnot
  obtain ⟨revocation, backend, hreturned⟩ := hreleased
  rw [result, hresult, Completion.returned.injEq] at hreturned
  rw [hreturned] at hrefused
  simp at hrefused

theorem result_of_releasable {run : ReleaseRun} {lease : ComputeLease}
    (hreleasable : Releasable run.agent.shared run.request run.observed
      run.now lease) :
    run.called = run.teardown ∧
      run.result.completion = releaseConclusion .revoked run.teardown := by
  have hrevoked := run.reached.revoke_stored hreleasable.1
  unfold called teardown result teardownReply
  rw [handleReleaseLease_of_releasable hreleasable]
  dsimp only
  rw [hrevoked]
  cases (run.agent.shared.prune
    run.now).anyOtherLiveLeaseForSameResource run.request.leaseId with
  | false => exact ⟨rfl, rfl⟩
  | true => exact ⟨rfl, rfl⟩

/-- The backend was called as the store required, its reply did not unwind,
and the record keeps of it what `.ok()` keeps. -/
theorem EndsInReleased.exists_reply {run : ReleaseRun}
    (hreleased : run.EndsInReleased) :
    ∃ reply : Option BackendReply,
      run.teardown = reply.map .returned ∧ run.called = run.teardown ∧
        run.recorded =
          some (.released .revoked (reply.bind Except.toOption)) := by
  obtain ⟨lease, hreleasable⟩ := hreleased.exists_releasable
  obtain ⟨hcalled, hcompletion⟩ := result_of_releasable hreleasable
  unfold recorded
  obtain ⟨revocation, backend, hreturned⟩ := hreleased
  rw [hcompletion] at hreturned ⊢
  cases hteardown : run.teardown with
  | none => exact ⟨none, rfl, hcalled.trans hteardown, rfl⟩
  | some completion =>
      cases completion with
      | returned reply =>
          exact ⟨some reply, rfl, hcalled.trans hteardown, rfl⟩
      | panicked =>
          rw [hteardown] at hreturned
          contradiction

theorem teardownSucceeds_iff {run : ReleaseRun}
    {reply : Option BackendReply}
    (hteardown : run.teardown = reply.map .returned) :
    run.TeardownSucceeds ↔ ∃ result, reply.bind Except.toOption =
      some result := by
  unfold TeardownSucceeds
  rw [hteardown]
  cases reply with
  | none => simp
  | some reply => cases reply <;> simp [Except.toOption]

end ReleaseRun

/-- A reply which left a result is determined by it. -/
theorem eq_of_toOption_eq_some {first second : Option BackendReply}
    {result : EnforcementResult}
    (hfirst : first.bind Except.toOption = some result)
    (hsecond : second.bind Except.toOption = some result) :
    first = second := by
  have hkept : ∀ {reply : Option BackendReply},
      reply.bind Except.toOption = some result →
        reply = some (.ok result) := by
    intro reply hreply
    cases reply with
    | none => contradiction
    | some reply =>
        cases reply with
        | error error => contradiction
        | ok found => exact congrArg _ (congrArg _ (Option.some.inj hreply))
  rw [hkept hfirst, hkept hsecond]

/-- Two released runs can be told apart by their records exactly if one of
their teardowns succeeds, or if they do not differ: both not attempted, or
both attempted with the same reply. -/
theorem recordsTell_iff {first second : ReleaseRun}
    (hfirst : first.EndsInReleased) (hsecond : second.EndsInReleased) :
    RecordsTell first second ↔
      first.TeardownSucceeds ∨ second.TeardownSucceeds ∨
        first.teardown = second.teardown := by
  obtain ⟨firstReply, hfirstTeardown, hfirstCalled, hfirstRecorded⟩ :=
    hfirst.exists_reply
  obtain ⟨secondReply, hsecondTeardown, hsecondCalled, hsecondRecorded⟩ :=
    hsecond.exists_reply
  unfold RecordsTell
  rw [hfirstCalled, hsecondCalled, hfirstRecorded, hsecondRecorded,
    ReleaseRun.teardownSucceeds_iff hfirstTeardown,
    ReleaseRun.teardownSucceeds_iff hsecondTeardown]
  simp only [Option.some.injEq, AuthorizationOutcome.released.injEq,
    true_and]
  constructor
  · intro htell
    by_cases hfirstLeft : ∃ result,
        firstReply.bind Except.toOption = some result
    · exact .inl hfirstLeft
    by_cases hsecondLeft : ∃ result,
        secondReply.bind Except.toOption = some result
    · exact .inr (.inl hsecondLeft)
    have hfirstNone := Option.eq_none_iff_forall_ne_some.mpr
      fun result heq => hfirstLeft ⟨result, heq⟩
    have hsecondNone := Option.eq_none_iff_forall_ne_some.mpr
      fun result heq => hsecondLeft ⟨result, heq⟩
    exact .inr (.inr (htell (hfirstNone.trans hsecondNone.symm)))
  · rintro (⟨result, hleft⟩ | ⟨result, hleft⟩ | hsame) hequal
    · have hreplies := eq_of_toOption_eq_some hleft (hequal ▸ hleft)
      rw [hfirstTeardown, hsecondTeardown, hreplies]
    · have hreplies := eq_of_toOption_eq_some (hequal.trans hleft) hleft
      rw [hfirstTeardown, hsecondTeardown, hreplies]
    · exact hsame

/-! ## A failed teardown and one which was not attempted -/

/-- The worker is granted two leases on the resource. -/
def twiceGrantedActions : List AgentAction :=
  grantActions workerHash ++
    [.start (workerPeer workerHash, sampleLeaseRequest),
      .act 1 (.issue ⟨2⟩),
      .act 1 (.enforce (.returned (.ok .allowed))),
      .act 1 (.readClock ⟨3⟩),
      .act 1 .settle]

/-- The first of two leases is released: the other one keeps the resource. -/
def spareRun : ReleaseRun where
  handler := twoSlotHandler
  actions := twiceGrantedActions
  agent := twoSlotHandler.finalState twiceGrantedActions (by decide)
  reached := runs_finalState _
  request := ⟨sampleId⟩
  observed := workerContext workerHash
  now := ⟨4⟩
  backend := .returned (.ok .allowed)

/-- The only lease is released, and the backend answers the teardown. -/
def soleRun (reply : BackendReply) : ReleaseRun where
  handler := sampleHandler
  actions := askActions workerHash
  agent := recognizedState
  reached := runs_finalState _
  request := ⟨sampleId⟩
  observed := workerContext workerHash
  now := ⟨2⟩
  backend := .returned reply

theorem spareRun_endsInReleased : spareRun.EndsInReleased :=
  ⟨.revoked, none, by decide⟩

theorem soleRun_endsInReleased (reply : BackendReply) :
    (soleRun reply).EndsInReleased := by
  refine ⟨.revoked, reply.toOption, ?_⟩
  cases reply <;> rfl

theorem allowedTeardown_recordsTell :
    RecordsTell (soleRun (.ok .allowed)) spareRun :=
  (recordsTell_iff (soleRun_endsInReleased _) spareRun_endsInReleased).mpr
    (.inl ⟨.allowed, by decide⟩)

/-- A teardown which failed leaves the record of one not attempted. -/
theorem failed_teardown_recorded_as_not_attempted :
    ¬∀ first second : ReleaseRun, first.EndsInReleased →
      second.EndsInReleased → RecordsTell first second := by
  intro hall
  have htell := hall (soleRun (.error .permissionDenied)) spareRun
    (soleRun_endsInReleased _) spareRun_endsInReleased
  have hsame : (soleRun (.error .permissionDenied)).recorded =
      spareRun.recorded := by decide
  have hcalled := htell hsame
  revert hcalled
  decide

end Eltanin.Agent
