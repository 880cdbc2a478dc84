import Eltanin.PeerModel

/-!
# The verdict on a peer

What a connection's credential says about a peer is checked against the real
and the effective uid that were observed for its process.  Each of the two may
have been observed, may be missing, or may not be supported at all, and a
match which the peer merely asserted counts for nothing.
-/

namespace Eltanin.Core

def Evidence.isPresent {α : Type} : Evidence α → Bool
  | .present _ _ => true
  | _ => false

def Evidence.isMissing {α : Type} : Evidence α → Bool
  | .missing _ => true
  | _ => false

/-- The closure `matches` of `classify_consistency`. -/
def Evidence.matchesUid (evidence : Evidence UInt32) (peer : UInt32) : Bool :=
  match evidence with
  | .present value source => source ≠ .selfAsserted && value = peer
  | .missing _ => false
  | .unsupported => false

def classifyConsistency (peerEffectiveUid : UInt32)
    (observedRealUid observedEffectiveUid : Evidence UInt32) :
    PeerConsistency :=
  if observedRealUid.matchesUid peerEffectiveUid ∨
      observedEffectiveUid.matchesUid peerEffectiveUid then
    .consistent
  else
    match observedRealUid, observedEffectiveUid with
    | .missing reason, .missing _ => .indeterminate reason
    | _, _ =>
        .credentialDivergence peerEffectiveUid observedRealUid
          observedEffectiveUid

def PeerContext.fromKernelObservation (credential : PeerCredential)
    (observed : ExecutionContext)
    (observedRealUid observedEffectiveUid : Evidence UInt32) : PeerContext where
  credential := credential
  consistency :=
    classifyConsistency credential.effectiveUid observedRealUid
      observedEffectiveUid
  observed := observed

def PeerContext.peerUnmapped (credential : PeerCredential)
    (observed : ExecutionContext) : PeerContext where
  credential := credential
  consistency := .peerUnmapped
  observed := observed

/-! ## What each verdict says -/

theorem Evidence.matchesUid_iff {evidence : Evidence UInt32}
    {peer : UInt32} :
    evidence.matchesUid peer = true ↔ evidence.trusted? = some peer := by
  cases evidence with
  | present value source =>
      cases source <;> simp [matchesUid, trusted?]
  | missing reason => simp [matchesUid, trusted?]
  | unsupported => simp [matchesUid, trusted?]

/-- One of the two observations agrees with the credential and can be
trusted. -/
def UidAgrees (peer : UInt32) (real effective : Evidence UInt32) : Prop :=
  real.trusted? = some peer ∨ effective.trusted? = some peer

section Verdict

variable {peer : UInt32} {real effective : Evidence UInt32}

theorem classifyConsistency_of_agrees
    (hagrees : UidAgrees peer real effective) :
    classifyConsistency peer real effective = .consistent := by
  unfold classifyConsistency
  exact if_pos (hagrees.imp Evidence.matchesUid_iff.mpr
    Evidence.matchesUid_iff.mpr)

/-- Without an agreement the verdict only asks whether both observations are
missing. -/
theorem classifyConsistency_of_not_agrees
    (hagrees : ¬UidAgrees peer real effective) :
    (∃ reason other, real = .missing reason ∧ effective = .missing other ∧
      classifyConsistency peer real effective = .indeterminate reason) ∨
    (¬(real.isMissing = true ∧ effective.isMissing = true) ∧
      classifyConsistency peer real effective =
        .credentialDivergence peer real effective) := by
  have hmatches : ¬(real.matchesUid peer = true ∨
      effective.matchesUid peer = true) := fun hboth =>
    hagrees (hboth.imp Evidence.matchesUid_iff.mp Evidence.matchesUid_iff.mp)
  unfold classifyConsistency
  rw [if_neg hmatches]
  cases real with
  | missing reason =>
      cases effective with
      | missing other => exact .inl ⟨reason, other, rfl, rfl, rfl⟩
      | present value source => exact .inr ⟨by simp [Evidence.isMissing], rfl⟩
      | unsupported => exact .inr ⟨by simp [Evidence.isMissing], rfl⟩
  | present value source => exact .inr ⟨by simp [Evidence.isMissing], rfl⟩
  | unsupported => exact .inr ⟨by simp [Evidence.isMissing], rfl⟩

theorem classifyConsistency_eq_consistent_iff :
    classifyConsistency peer real effective = .consistent ↔
      UidAgrees peer real effective := by
  constructor
  · intro hconsistent
    by_contra hagrees
    rcases classifyConsistency_of_not_agrees hagrees with
      ⟨reason, other, -, -, hverdict⟩ | ⟨-, hverdict⟩
    · rw [hverdict] at hconsistent
      exact nomatch hconsistent
    · rw [hverdict] at hconsistent
      exact nomatch hconsistent
  · exact classifyConsistency_of_agrees

theorem classifyConsistency_eq_indeterminate_iff {reason : String} :
    classifyConsistency peer real effective = .indeterminate reason ↔
      real = .missing reason ∧ effective.isMissing = true := by
  constructor
  · intro hindeterminate
    by_cases hagrees : UidAgrees peer real effective
    · rw [classifyConsistency_of_agrees hagrees] at hindeterminate
      exact nomatch hindeterminate
    · rcases classifyConsistency_of_not_agrees hagrees with
        ⟨first, other, hreal, heffective, hverdict⟩ | ⟨-, hverdict⟩
      · rw [hverdict, PeerConsistency.indeterminate.injEq] at hindeterminate
        rw [hreal, heffective, hindeterminate]
        exact ⟨rfl, rfl⟩
      · rw [hverdict] at hindeterminate
        exact nomatch hindeterminate
  · rintro ⟨hreal, hmissing⟩
    cases effective with
    | missing other =>
        rw [hreal]
        rfl
    | present value source => exact nomatch hmissing
    | unsupported => exact nomatch hmissing

/-- A divergence carries what it was found from. -/
theorem classifyConsistency_eq_divergence_iff
    {uid : UInt32} {foundReal foundEffective : Evidence UInt32} :
    classifyConsistency peer real effective =
        .credentialDivergence uid foundReal foundEffective ↔
      (uid = peer ∧ foundReal = real ∧ foundEffective = effective) ∧
        ¬UidAgrees peer real effective ∧
        ¬(real.isMissing = true ∧ effective.isMissing = true) := by
  by_cases hagrees : UidAgrees peer real effective
  · rw [classifyConsistency_of_agrees hagrees]
    simp [hagrees]
  · rcases classifyConsistency_of_not_agrees hagrees with
      ⟨reason, other, hreal, heffective, hverdict⟩ | ⟨hnot, hverdict⟩
    · rw [hverdict, hreal, heffective]
      simp [Evidence.isMissing]
    · rw [hverdict, PeerConsistency.credentialDivergence.injEq]
      constructor
      · rintro ⟨rfl, rfl, rfl⟩
        exact ⟨⟨rfl, rfl, rfl⟩, hagrees, hnot⟩
      · rintro ⟨⟨rfl, rfl, rfl⟩, -, -⟩
        exact ⟨rfl, rfl, rfl⟩

theorem PeerContext.authorizable_fromKernelObservation
    {credential : PeerCredential} {observed : ExecutionContext} :
    (PeerContext.fromKernelObservation credential observed real
        effective).authorizable = some observed ↔
      UidAgrees credential.effectiveUid real effective := by
  rw [PeerContext.authorizable_eq_some_iff,
    ← classifyConsistency_eq_consistent_iff]
  exact and_iff_left rfl

theorem PeerContext.authorizable_peerUnmapped (credential : PeerCredential)
    (observed : ExecutionContext) :
    (PeerContext.peerUnmapped credential observed).authorizable = none :=
  rfl

end Verdict

/-! ## Verdicts by what was observed -/

/-- A peer is consistent when an observation agrees with it, divergent only
when something was observed and nothing agrees, and indeterminate when nothing
was observed. -/
structure ClassifiedByObservation (credential : PeerCredential)
    (real effective : Evidence UInt32) : Prop where
  consistent :
    classifyConsistency credential.effectiveUid real effective =
        .consistent ↔
      UidAgrees credential.effectiveUid real effective
  divergent : ∀ uid foundReal foundEffective,
    classifyConsistency credential.effectiveUid real effective =
        .credentialDivergence uid foundReal foundEffective →
      ¬UidAgrees credential.effectiveUid real effective ∧
        (real.isPresent = true ∨ effective.isPresent = true)
  indeterminate :
    (∃ reason, classifyConsistency credential.effectiveUid real effective =
        .indeterminate reason) ↔
      ¬(real.isPresent = true ∨ effective.isPresent = true)
  authorizable : ∀ observed,
    (PeerContext.fromKernelObservation credential observed real
        effective).authorizable = some observed ↔
      UidAgrees credential.effectiveUid real effective
  unmapped : ∀ observed,
    (PeerContext.peerUnmapped credential observed).authorizable = none

theorem Evidence.isPresent_eq_false_of_isMissing {α : Type}
    {evidence : Evidence α} (hmissing : evidence.isMissing = true) :
    evidence.isPresent = false := by
  cases evidence with
  | missing reason => rfl
  | present value source => exact nomatch hmissing
  | unsupported => exact nomatch hmissing

theorem not_present_of_missing {real effective : Evidence UInt32}
    (hmissing : real.isMissing = true ∧ effective.isMissing = true) :
    ¬(real.isPresent = true ∨ effective.isPresent = true) := by
  rw [Evidence.isPresent_eq_false_of_isMissing hmissing.1,
    Evidence.isPresent_eq_false_of_isMissing hmissing.2]
  decide

/-- The two readings of an observation come to the same when something was
observed, and when both observations are missing; an unsupported one that
nothing makes up for is taken for a divergence. -/
theorem classifiedByObservation_iff (credential : PeerCredential)
    (real effective : Evidence UInt32) :
    ClassifiedByObservation credential real effective ↔
      real.isPresent = true ∨ effective.isPresent = true ∨
        real.isMissing = true ∧ effective.isMissing = true := by
  have hindeterminate :
      (∃ reason, classifyConsistency credential.effectiveUid real effective =
          .indeterminate reason) ↔
        real.isMissing = true ∧ effective.isMissing = true := by
    simp only [classifyConsistency_eq_indeterminate_iff, exists_and_right]
    refine and_congr_left' ⟨?_, ?_⟩
    · rintro ⟨reason, rfl⟩
      rfl
    · intro hmissing
      cases real with
      | missing reason => exact ⟨reason, rfl⟩
      | present value source => exact nomatch hmissing
      | unsupported => exact nomatch hmissing
  constructor
  · intro hclassified
    by_cases hpresent : real.isPresent = true ∨ effective.isPresent = true
    · rw [← or_assoc]
      exact .inl hpresent
    · exact .inr (.inr (hindeterminate.mp
        (hclassified.indeterminate.mpr hpresent)))
  · intro hcondition
    rw [← or_assoc] at hcondition
    refine ⟨classifyConsistency_eq_consistent_iff, ?_, ?_,
      fun observed => PeerContext.authorizable_fromKernelObservation,
      PeerContext.authorizable_peerUnmapped credential⟩
    · intro uid foundReal foundEffective hdivergence
      obtain ⟨-, hagrees, hnot⟩ :=
        classifyConsistency_eq_divergence_iff.mp hdivergence
      exact ⟨hagrees, hcondition.resolve_right hnot⟩
    · rw [hindeterminate]
      constructor
      · exact not_present_of_missing
      · exact hcondition.resolve_left

theorem unsupported_not_classifiedByObservation :
    ¬ClassifiedByObservation ⟨4242, 1000, 1000⟩ .unsupported .unsupported := by
  intro hclassified
  have hverdict : classifyConsistency 1000 .unsupported .unsupported =
      .credentialDivergence 1000 .unsupported .unsupported := rfl
  rcases (hclassified.divergent _ _ _ hverdict).2 with hreal | heffective
  · exact nomatch hreal
  · exact nomatch heffective

end Eltanin.Core
