import Eltanin.SuperviseModel

/-!
# What a release reports

A release sends at most three requests.  The invariant of its loop lists what
has been sent: every reply but the last one leaves the lease in place.  The
rank of a place in the loop counts the steps which are left, so a release
returns whatever it is answered.  A reply that the lease was not released ends
the loop like one that it was, and without a warning.
-/

namespace Eltanin.Cli

open Eltanin.Core Protocol

/-- The request for a release has this reply, whatever lease it names. -/
def LaunchEvent.isReleaseSent : LaunchEvent → Bool
  | .releaseSent _ _ => true
  | _ => false

/-- The lease which a message of the release is about. -/
def LaunchEvent.releaseId? : LaunchEvent → Option LeaseId
  | .releaseSent leaseId _ => some leaseId
  | .releaseWarned leaseId => some leaseId
  | _ => none

/-! ## The run of a release -/

variable {leaseId : LeaseId} {replies : ℕ → Except ClientError AgentResponse}

/-- What a release waits for: the reply to its request of this attempt, or the
end of its pause. -/
def Release.awaited (replies : ℕ → Except ClientError AgentResponse) :
    Release → LaunchAnswer
  | .sending attempt => .replied (replies attempt)
  | _ => .os .slept

/-- A call of `release` and what it has done. -/
structure ReleaseCall where
  code : Release
  trace : List LaunchEvent
  deriving DecidableEq

namespace ReleaseCall

def step (leaseId : LeaseId) (replies : ℕ → Except ClientError AgentResponse)
    (call : ReleaseCall) : ReleaseCall :=
  match call.code.act leaseId (call.code.awaited replies) with
  | some (code, events) => ⟨code, call.trace ++ events⟩
  | none => call

def after (leaseId : LeaseId)
    (replies : ℕ → Except ClientError AgentResponse) : ℕ → ReleaseCall
  | 0 => ⟨.start, []⟩
  | steps + 1 => (after leaseId replies steps).step leaseId replies

end ReleaseCall

/-- `release`, where `replies attempt` answers its request of that attempt. -/
def release (leaseId : LeaseId)
    (replies : ℕ → Except ClientError AgentResponse) : ReleaseCall :=
  .after leaseId replies (2 * releaseAttempts)

/-! ## The invariant of the loop -/

/-- The reply ends the loop. -/
def EndsRelease (reply : Except ClientError AgentResponse) : Prop :=
  ∃ outcome, reply = .ok (.leaseReleased outcome)

/-- The requests of the first attempts and their replies. -/
def sent (leaseId : LeaseId)
    (replies : ℕ → Except ClientError AgentResponse) (attempts : ℕ) :
    List LaunchEvent :=
  (List.range attempts).map fun attempt =>
    .releaseSent leaseId (replies attempt)

theorem sent_succ (leaseId : LeaseId)
    (replies : ℕ → Except ClientError AgentResponse) (attempt : ℕ) :
    sent leaseId replies (attempt + 1) =
      sent leaseId replies attempt ++
        [.releaseSent leaseId (replies attempt)] := by
  simp [sent, List.range_succ]

theorem mem_sent_iff {attempts : ℕ} {event : LaunchEvent} :
    event ∈ sent leaseId replies attempts ↔
      ∃ attempt < attempts, event = .releaseSent leaseId (replies attempt) := by
  simp only [sent, List.mem_map, List.mem_range, eq_comm]

theorem countP_sent (attempts : ℕ) :
    (sent leaseId replies attempts).countP LaunchEvent.isReleaseSent =
      attempts := by
  induction attempts with
  | zero => rfl
  | succ attempt ih => simp [sent_succ, ih, LaunchEvent.isReleaseSent]

/-- None of the first replies has ended the loop. -/
def Inconclusive (replies : ℕ → Except ClientError AgentResponse)
    (attempts : ℕ) : Prop :=
  ∀ attempt < attempts, ¬EndsRelease (replies attempt)

theorem Inconclusive.succ {attempt : ℕ}
    (hearlier : Inconclusive replies attempt)
    (hreply : ¬EndsRelease (replies attempt)) :
    Inconclusive replies (attempt + 1) := by
  intro index hindex
  rcases Nat.lt_succ_iff_lt_or_eq.mp hindex with hlt | heq
  · exact hearlier index hlt
  · rw [heq]
    exact hreply

/-- Where the loop is after which requests. -/
inductive ReleaseCall.Progress (leaseId : LeaseId)
    (replies : ℕ → Except ClientError AgentResponse) : ReleaseCall → Prop
  | sending (attempt : ℕ) (hattempt : attempt < releaseAttempts)
      (hearlier : Inconclusive replies attempt) :
      Progress leaseId replies
        ⟨.sending attempt, sent leaseId replies attempt⟩
  | backingOff (attempt : ℕ) (hattempt : attempt + 1 < releaseAttempts)
      (hearlier : Inconclusive replies (attempt + 1)) :
      Progress leaseId replies
        ⟨.backingOff attempt, sent leaseId replies (attempt + 1)⟩
  | concluded (attempt : ℕ) (hattempt : attempt < releaseAttempts)
      (hearlier : Inconclusive replies attempt)
      (hreply : EndsRelease (replies attempt)) :
      Progress leaseId replies
        ⟨.returned, sent leaseId replies (attempt + 1)⟩
  | exhausted (hearlier : Inconclusive replies releaseAttempts) :
      Progress leaseId replies
        ⟨.returned, sent leaseId replies releaseAttempts ++
          [.releaseWarned leaseId]⟩

/-- The steps which are left. -/
def Release.rank : Release → ℕ
  | .sending attempt => 2 * (releaseAttempts - attempt)
  | .backingOff attempt => 2 * (releaseAttempts - attempt) - 1
  | .returned => 0

theorem Release.answered_of_endsRelease (leaseId : LeaseId) {attempt : ℕ}
    (hreply : EndsRelease (replies attempt)) :
    answered leaseId attempt (replies attempt) = (.returned, []) := by
  obtain ⟨outcome, hreply⟩ := hreply
  rw [hreply]
  rfl

/-- A pause follows every attempt but the last. -/
theorem Release.answered_of_not_endsRelease (leaseId : LeaseId)
    {attempt : ℕ} (hreply : ¬EndsRelease (replies attempt)) :
    answered leaseId attempt (replies attempt) =
      if attempt + 1 < releaseAttempts then (.backingOff attempt, [])
      else (.returned, [.releaseWarned leaseId]) := by
  unfold answered
  split
  next outcome heq => exact absurd ⟨outcome, heq⟩ hreply
  next =>
    by_cases hnext : attempt + 1 < releaseAttempts
    · have hpause : attempt < releaseRetryBackoffs.length := by
        unfold releaseAttempts at hnext
        omega
      rw [List.getElem?_eq_getElem hpause, if_pos hnext]
    · have hpause : releaseRetryBackoffs.length ≤ attempt := by
        unfold releaseAttempts at hnext
        omega
      rw [List.getElem?_eq_none hpause, if_neg hnext]
      exact if_neg hnext

namespace ReleaseCall

variable {call : ReleaseCall}

/-- One round of the loop: the invariant is kept, and fewer steps are left. -/
theorem Progress.step (hprogress : Progress leaseId replies call) :
    Progress leaseId replies (call.step leaseId replies) ∧
      (call.step leaseId replies).code.rank ≤ call.code.rank - 1 := by
  cases hprogress with
  | sending attempt hattempt hearlier =>
      by_cases hreply : EndsRelease (replies attempt)
      · have hanswered := Release.answered_of_endsRelease leaseId hreply
        simp only [step, Release.awaited, Release.act, hanswered, ← sent_succ]
        exact ⟨.concluded attempt hattempt hearlier hreply, Nat.zero_le _⟩
      · have hanswered :=
          Release.answered_of_not_endsRelease leaseId hreply
        simp only [step, Release.awaited, Release.act, hanswered]
        split
        next hnext =>
          rw [← sent_succ]
          exact ⟨.backingOff attempt hnext (hearlier.succ hreply),
            Nat.le_refl _⟩
        next hlast =>
          have heq : attempt + 1 = releaseAttempts := by omega
          rw [List.append_cons, ← sent_succ, heq]
          exact ⟨.exhausted (heq ▸ hearlier.succ hreply), Nat.zero_le _⟩
  | backingOff attempt hattempt hearlier =>
      have hnext : Release.next leaseId attempt =
          (.sending (attempt + 1), []) := if_pos hattempt
      simp only [step, Release.awaited, Release.act, hnext, List.append_nil]
      refine ⟨.sending (attempt + 1) hattempt hearlier, ?_⟩
      simp only [Release.rank]
      omega
  | concluded attempt hattempt hearlier hreply =>
      exact ⟨.concluded attempt hattempt hearlier hreply, Nat.zero_le _⟩
  | exhausted hearlier => exact ⟨.exhausted hearlier, Nat.zero_le _⟩

theorem progress_after (leaseId : LeaseId)
    (replies : ℕ → Except ClientError AgentResponse) (steps : ℕ) :
    Progress leaseId replies (after leaseId replies steps) ∧
      (after leaseId replies steps).code.rank ≤
        2 * releaseAttempts - steps := by
  induction steps with
  | zero =>
      exact ⟨.sending 0 (by decide) (by simp [Inconclusive]), Nat.le_refl _⟩
  | succ steps ih =>
      obtain ⟨hprogress, hrank⟩ := ih
      obtain ⟨hnext, hless⟩ := hprogress.step
      exact ⟨hnext, by rw [after]; omega⟩

end ReleaseCall

/-! ## What is reported -/

/-- The agent has released the lease. -/
def LaunchEvent.released (leaseId : LeaseId) : LaunchEvent :=
  .releaseSent leaseId (.ok (.leaseReleased .released))

/-- A release is tried a few times, and a warning says whether it happened. -/
structure ReleaseReported (leaseId : LeaseId) (trace : List LaunchEvent) :
    Prop where
  bounded : trace.countP LaunchEvent.isReleaseSent ≤ 3
  named : ∀ event ∈ trace, ∀ id, event.releaseId? = some id → id = leaseId
  ended : trace.Pairwise fun earlier later =>
    earlier = .released leaseId → later.isReleaseSent = false
  warned : .releaseWarned leaseId ∉ trace ↔ .released leaseId ∈ trace

theorem named_sent {attempts : ℕ} :
    ∀ event ∈ sent leaseId replies attempts, ∀ id,
      event.releaseId? = some id → id = leaseId := by
  intro event hevent id hid
  obtain ⟨attempt, -, rfl⟩ := mem_sent_iff.mp hevent
  exact (Option.some.inj hid).symm

theorem releaseWarned_notMem_sent {attempts : ℕ} :
    .releaseWarned leaseId ∉ sent leaseId replies attempts := by
  intro hmem
  obtain ⟨attempt, -, heq⟩ := mem_sent_iff.mp hmem
  contradiction

theorem released_mem_sent_iff {attempts : ℕ} :
    .released leaseId ∈ sent leaseId replies attempts ↔
      ∃ attempt < attempts,
        replies attempt = .ok (.leaseReleased .released) := by
  simp [mem_sent_iff, LaunchEvent.released, eq_comm]

theorem Inconclusive.released_notMem {attempts : ℕ}
    (hearlier : Inconclusive replies attempts) :
    .released leaseId ∉ sent leaseId replies attempts := by
  intro hmem
  obtain ⟨attempt, hattempt, hreply⟩ := released_mem_sent_iff.mp hmem
  exact hearlier attempt hattempt ⟨.released, hreply⟩

/-- No request follows a reply that the lease was released. -/
theorem Inconclusive.pairwise_sent {attempt : ℕ}
    (hearlier : Inconclusive replies attempt) :
    (sent leaseId replies (attempt + 1)).Pairwise fun earlier later =>
      earlier = .released leaseId → later.isReleaseSent = false := by
  rw [sent, List.pairwise_map]
  apply List.pairwise_lt_range.imp_of_mem
  intro first second hfirst hsecond hlt heq
  have hbefore : first < attempt := by
    have hsecond := List.mem_range.mp hsecond
    omega
  have hreply := (LaunchEvent.releaseSent.inj heq).2
  exact absurd ⟨.released, hreply⟩ (hearlier first hbefore)

/-- After a reply which ended the loop there is no warning. -/
theorem reported_concluded_iff {attempt : ℕ} (hattempt : attempt < 3)
    (hearlier : Inconclusive replies attempt) :
    ReleaseReported leaseId (sent leaseId replies (attempt + 1)) ↔
      replies attempt = .ok (.leaseReleased .released) := by
  constructor
  · intro hreported
    have hmem := hreported.warned.mp releaseWarned_notMem_sent
    rw [sent_succ, List.mem_append] at hmem
    rcases hmem with hmem | hmem
    · exact absurd hmem hearlier.released_notMem
    · have hlast := List.mem_singleton.mp hmem
      exact (LaunchEvent.releaseSent.inj hlast).2.symm
  · intro hreply
    exact {
      bounded := by
        rw [countP_sent]
        exact hattempt
      named := named_sent
      ended := hearlier.pairwise_sent
      warned := iff_of_true releaseWarned_notMem_sent
        (released_mem_sent_iff.mpr ⟨attempt, Nat.lt_succ_self _, hreply⟩)
    }

/-- After three other replies there is one. -/
theorem reported_exhausted (hearlier : Inconclusive replies releaseAttempts) :
    ReleaseReported leaseId
      (sent leaseId replies releaseAttempts ++ [.releaseWarned leaseId]) where
  bounded := by
    rw [List.countP_append, countP_sent]
    exact Nat.le_refl 3
  named := by
    intro event hevent id hid
    rcases List.mem_append.mp hevent with hsent | hwarned
    · exact named_sent event hsent id hid
    · rw [List.mem_singleton.mp hwarned] at hid
      exact (Option.some.inj hid).symm
  ended := by
    rw [List.pairwise_append]
    refine ⟨?_, List.pairwise_singleton _ _, ?_⟩
    · have hfirst : Inconclusive replies (releaseAttempts - 1) :=
        fun attempt hlt => hearlier attempt (Nat.lt_of_lt_pred hlt)
      exact hfirst.pairwise_sent
    · intro earlier hsent later hlater heq
      rw [List.mem_singleton.mp hlater]
      rfl
  warned := by
    apply iff_of_false
    · exact not_not_intro (List.mem_append_right _ List.mem_cons_self)
    · intro hmem
      rcases List.mem_append.mp hmem with hsent | hwarned
      · exact hearlier.released_notMem hsent
      · exact absurd (List.mem_singleton.mp hwarned) (by
          simp [LaunchEvent.released])

/-- A refusal is reported when an earlier reply has ended the loop, and not
otherwise. -/
theorem release_reported_iff (leaseId : LeaseId)
    (replies : ℕ → Except ClientError AgentResponse) :
    (release leaseId replies).code = .returned ∧
      (ReleaseReported leaseId (release leaseId replies).trace ↔
        ∀ attempt < releaseAttempts,
          replies attempt = .ok (.leaseReleased .refused) →
            ∃ earlier < attempt, EndsRelease (replies earlier)) := by
  obtain ⟨hprogress, hrank⟩ :=
    ReleaseCall.progress_after leaseId replies (2 * releaseAttempts)
  rw [Nat.sub_self] at hrank
  unfold release
  generalize ReleaseCall.after leaseId replies (2 * releaseAttempts) = call
    at hprogress hrank ⊢
  cases hprogress with
  | sending attempt hattempt hearlier =>
      simp only [Release.rank] at hrank
      omega
  | backingOff attempt hattempt hearlier =>
      simp only [Release.rank] at hrank
      omega
  | concluded attempt hattempt hearlier hreply =>
      refine ⟨rfl, (reported_concluded_iff hattempt hearlier).trans ?_⟩
      constructor
      · intro hreleased index hindex hrefused
        rcases Nat.lt_trichotomy index attempt with hlt | heq | hgt
        · exact absurd ⟨.refused, hrefused⟩ (hearlier index hlt)
        · rw [heq, hreleased] at hrefused
          contradiction
        · exact ⟨attempt, hgt, hreply⟩
      · intro hrefusals
        obtain ⟨outcome, houtcome⟩ := hreply
        cases outcome with
        | released => exact houtcome
        | refused =>
            obtain ⟨earlier, hlt, hends⟩ :=
              hrefusals attempt hattempt houtcome
            exact absurd hends (hearlier earlier hlt)
  | exhausted hearlier =>
      refine ⟨rfl, iff_of_true (reported_exhausted hearlier) ?_⟩
      intro index hindex hrefused
      exact absurd ⟨.refused, hrefused⟩ (hearlier index hindex)

/-- The agent does not know the lease, or the peer does not own it: the release
returns as if it had happened. -/
theorem refused_release_without_warning :
    (release ⟨⟨"agent-1"⟩, 0⟩
        (fun _ => .ok (.leaseReleased .refused))).trace =
      [.releaseSent ⟨⟨"agent-1"⟩, 0⟩ (.ok (.leaseReleased .refused))] ∧
    ¬ReleaseReported ⟨⟨"agent-1"⟩, 0⟩
      (release ⟨⟨"agent-1"⟩, 0⟩
        (fun _ => .ok (.leaseReleased .refused))).trace := by
  have htrace : (release ⟨⟨"agent-1"⟩, 0⟩
      (fun _ => .ok (.leaseReleased .refused))).trace =
        [.releaseSent ⟨⟨"agent-1"⟩, 0⟩ (.ok (.leaseReleased .refused))] := by
    decide
  refine ⟨htrace, fun hreported => ?_⟩
  have hwarned := hreported.warned.mp
  rw [htrace] at hwarned
  exact absurd (hwarned (by decide)) (by decide)

end Eltanin.Cli
