import Eltanin.LeaseModel
import Eltanin.PolicyEvidenceScope

/-!
# What issuing a lease checks and what it hands out

Issuing has four ways to refuse, looked for in a fixed order, and one way to
succeed; as long as a sequence number is left these exclude each other and
leave nothing out.  Only the success touches the issuer, and then nothing but
its sequence number.
-/

namespace Eltanin.Core

open PolicySet

/-! ## The explanation of an allow -/

/-- An allow names at least one rule, and only rules of the policy which
allow this very request. -/
structure PolicySet.AllowExplained (policy : PolicySet)
    (origin : ProvenanceRecord) (ids : Finset RuleId) : Prop where
  nonempty : ids.Nonempty
  named : ∀ id ∈ ids, ∃ rule ∈ policy.document.rules, rule.id = id ∧
    rule.effect = .allow ∧ rule.Relevant origin.request ∧
      rule.Matched origin.context

theorem PolicySet.exists_allowExplained {policy : PolicySet}
    {origin : ProvenanceRecord}
    (hallow : (policy.evaluate origin.context origin.request).effect =
      .allow) :
    ∃ ids,
      (policy.evaluate origin.context origin.request).reason =
        .explicitAllow ids ∧
      policy.AllowExplained origin ids := by
  rw [evaluate_eq_documentedDecision] at hallow ⊢
  unfold PolicyDocument.documentedDecision
    PolicyDocument.documentedVerdict at hallow ⊢
  dsimp only at hallow ⊢
  split at hallow
  · contradiction
  next hdeny =>
  split at hallow
  · contradiction
  next hindeterminate =>
  split at hallow
  next hids =>
    rw [if_neg hdeny, if_neg hindeterminate, if_pos hids]
    refine ⟨_, rfl, hids, ?_⟩
    intro id hid
    rw [PolicyDocument.mem_idsOf] at hid
    obtain ⟨rule, hmem, heq, hrelevant, heffect, hmatched⟩ := hid
    exact ⟨rule, hmem, heq, heffect, hrelevant, hmatched⟩
  · contradiction

namespace LeaseIssuer

/-! ## The four checks -/

section Checks

variable (issuer : LeaseIssuer) (policy : PolicySet)
  (origin : ProvenanceRecord) (now : MonotonicTime) (ttl : Duration)

/-- Everything an issuer asks of a request. -/
structure Admits : Prop where
  ttl_pos : 0 < ttl.asNanos
  ttl_le : ttl.asNanos ≤ issuer.maxTtl.asNanos
  allowed :
    (policy.evaluate origin.context origin.request).effect = .allow
  fits : now.nanos.toNat + ttl.asNanos < UInt64.size

/-- The refusals, each once the checks before it have passed. -/
inductive Refuses : LeaseError → Prop
  | nonPositiveTtl (hzero : ttl.asNanos = 0) : Refuses .nonPositiveTtl
  | ttlExceedsMaximum (hpos : 0 < ttl.asNanos)
      (hexceeds : issuer.maxTtl.asNanos < ttl.asNanos) :
      Refuses (.ttlExceedsMaximum ttl issuer.maxTtl)
  | denied (hpos : 0 < ttl.asNanos)
      (hle : ttl.asNanos ≤ issuer.maxTtl.asNanos)
      (hdeny : (policy.evaluate origin.context origin.request).effect =
        .deny) :
      Refuses (.denied (policy.evaluate origin.context origin.request))
  | expiryOverflow (hpos : 0 < ttl.asNanos)
      (hle : ttl.asNanos ≤ issuer.maxTtl.asNanos)
      (hallow : (policy.evaluate origin.context origin.request).effect =
        .allow)
      (hoverflow : UInt64.size ≤ now.nanos.toNat + ttl.asNanos) :
      Refuses .expiryOverflow

end Checks

section Issue

variable {self next : LeaseIssuer} {policy : PolicySet}
  {origin : ProvenanceRecord} {now : MonotonicTime} {ttl : Duration}

theorem refuses_of_issue_eq {error : LeaseError}
    (hissue : self.issue policy origin now ttl =
      (next, .returned (.error error))) :
    self.Refuses policy origin now ttl error := by
  unfold issue at hissue
  split at hissue
  next hzero =>
    cases hissue
    exact .nonPositiveTtl hzero
  next hnonzero =>
  have hpos : 0 < ttl.asNanos := Nat.pos_of_ne_zero hnonzero
  split at hissue
  next hexceeds =>
    cases hissue
    exact .ttlExceedsMaximum hpos hexceeds
  next hwithin =>
  have hle : ttl.asNanos ≤ self.maxTtl.asNanos := not_lt.mp hwithin
  simp only at hissue
  split at hissue
  next hdenied =>
    cases hissue
    have hdeny : (policy.evaluate origin.context origin.request).effect =
        .deny := by
      cases heffect :
          (policy.evaluate origin.context origin.request).effect with
      | allow => exact (hdenied heffect).elim
      | deny => rfl
    exact .denied hpos hle hdeny
  next hallowed =>
  split at hissue
  next hadd =>
    cases hissue
    have hoverflow : UInt64.size ≤ now.nanos.toNat + ttl.asNanos := by
      by_contra hfits
      rw [MonotonicTime.checkedAdd, if_pos (not_le.mp hfits)] at hadd
      contradiction
    exact .expiryOverflow hpos hle (not_not.mp hallowed) hoverflow
  · split at hissue
    · simp at hissue
    · simp at hissue

theorem admits_of_issue_eq {lease : ComputeLease}
    (hissue : self.issue policy origin now ttl =
      (next, .returned (.ok lease))) :
    self.Admits policy origin now ttl := by
  have hissued := issued_of_issue_eq hissue
  have hbound := lease.expiresAt.nanos.toNat_lt_size
  rw [hissued.expiresAt] at hbound
  exact ⟨hissued.ttl_pos, hissued.ttl_le, hissued.allowed, hbound⟩

/-- Only the last sequence number makes `issue` unwind. -/
theorem issue_snd_ne_panicked
    (hsequence : self.nextSequence.toNat < UInt64.size - 1) :
    (self.issue policy origin now ttl).2 ≠ .panicked := by
  have hroom : self.nextSequence.toNat + 1 < UInt64.size := by omega
  unfold issue
  simp only [hroom, if_true]
  split
  · simp
  split
  · simp
  split
  · simp
  · cases now.checkedAdd ttl <;> simp

theorem Refuses.not_admits {error : LeaseError}
    (hrefuses : self.Refuses policy origin now ttl error) :
    ¬self.Admits policy origin now ttl := by
  intro hadmits
  cases hrefuses with
  | nonPositiveTtl hzero => exact hadmits.ttl_pos.ne' hzero
  | ttlExceedsMaximum hpos hexceeds =>
      exact hexceeds.not_ge hadmits.ttl_le
  | denied hpos hle hdeny =>
      have hallow := hadmits.allowed
      rw [hdeny] at hallow
      contradiction
  | expiryOverflow hpos hle hallow hoverflow =>
      exact hoverflow.not_gt hadmits.fits

/-- The refusals exclude each other. -/
theorem Refuses.unique {first second : LeaseError}
    (hfirst : self.Refuses policy origin now ttl first)
    (hsecond : self.Refuses policy origin now ttl second) :
    first = second := by
  cases hfirst <;> cases hsecond <;> first | rfl | omega | simp_all

end Issue

/-- What the request gets when it is admitted. -/
structure Handout (issuer : LeaseIssuer) (policy : PolicySet)
    (origin : ProvenanceRecord) (now : MonotonicTime) (ttl : Duration)
    (next : LeaseIssuer) (lease : ComputeLease) : Prop where
  origin_eq : lease.origin = origin
  id_eq : lease.id = ⟨issuer.instanceId, issuer.nextSequence⟩
  issuedAt_eq : lease.issuedAt = now
  expiresAt_eq :
    lease.expiresAt.nanos.toNat = lease.issuedAt.nanos.toNat + ttl.asNanos
  lifetime_eq :
    lease.expiresAt.saturatingDurationSince lease.issuedAt = ttl
  reason : ∃ ids, lease.decisionReason = .explicitAllow ids ∧
    policy.AllowExplained origin ids
  next_eq : next = { issuer with nextSequence := issuer.nextSequence + 1 }
  sequence_eq : next.nextSequence.toNat = issuer.nextSequence.toNat + 1

theorem decisionReason_of_issue_eq {self next : LeaseIssuer}
    {policy : PolicySet} {origin : ProvenanceRecord} {now : MonotonicTime}
    {ttl : Duration} {lease : ComputeLease}
    (hissue : self.issue policy origin now ttl =
      (next, .returned (.ok lease))) :
    lease.decisionReason =
      (policy.evaluate origin.context origin.request).reason := by
  unfold issue at hissue
  split at hissue
  · simp at hissue
  split at hissue
  · simp at hissue
  simp only at hissue
  split at hissue
  · simp at hissue
  split at hissue
  · simp at hissue
  split at hissue
  · simp only [Prod.mk.injEq, Completion.returned.injEq,
      Except.ok.injEq] at hissue
    rw [← hissue.2]
  · simp at hissue

theorem handout_of_issue_eq {self next : LeaseIssuer} {policy : PolicySet}
    {origin : ProvenanceRecord} {now : MonotonicTime} {ttl : Duration}
    {lease : ComputeLease}
    (hissue : self.issue policy origin now ttl =
      (next, .returned (.ok lease))) :
    self.Handout policy origin now ttl next lease := by
  have hissued := issued_of_issue_eq hissue
  have hexpires : lease.expiresAt.nanos.toNat =
      lease.issuedAt.nanos.toNat + ttl.asNanos := by
    rw [hissued.expiresAt, hissued.issuedAt]
  have hlifetime :
      lease.expiresAt.saturatingDurationSince lease.issuedAt = ttl := by
    rw [← Duration.asNanos_inj,
      MonotonicTime.asNanos_saturatingDurationSince, hexpires,
      Nat.add_sub_cancel_left]
  have hreason : ∃ ids, lease.decisionReason = .explicitAllow ids ∧
      policy.AllowExplained origin ids := by
    rw [decisionReason_of_issue_eq hissue]
    exact exists_allowExplained hissued.allowed
  have hsequence :
      next.nextSequence.toNat = self.nextSequence.toNat + 1 := by
    rw [hissued.next_eq, UInt64.toNat_add]
    exact Nat.mod_eq_of_lt hissued.room
  exact
    { origin_eq := hissued.origin
      id_eq := hissued.id
      issuedAt_eq := hissued.issuedAt
      expiresAt_eq := hexpires
      lifetime_eq := hlifetime
      reason := hreason
      next_eq := hissued.next_eq
      sequence_eq := hsequence }

/-- While a sequence number is left, issuing succeeds exactly on the admitted
requests, fails with the first check which does not hold, and changes the
issuer by one sequence number or not at all. -/
theorem issue_exact (self : LeaseIssuer) (policy : PolicySet)
    (origin : ProvenanceRecord) (now : MonotonicTime) (ttl : Duration)
    (hsequence : self.nextSequence.toNat < UInt64.size - 1) :
    let result := self.issue policy origin now ttl
    ((∃ lease, result.2 = .returned (.ok lease)) ↔
      self.Admits policy origin now ttl) ∧
    (∀ error, result.2 = .returned (.error error) ↔
      self.Refuses policy origin now ttl error) ∧
    (∀ lease, result.2 = .returned (.ok lease) →
      self.Handout policy origin now ttl result.1 lease) ∧
    ∀ error, result.2 = .returned (.error error) → result.1 = self := by
  intro result
  have hpanic : result.2 ≠ .panicked := issue_snd_ne_panicked hsequence
  have hok : ∀ {lease}, result.2 = .returned (.ok lease) →
      self.issue policy origin now ttl =
        (result.1, .returned (.ok lease)) :=
    fun hsnd => Prod.ext rfl hsnd
  have herror : ∀ {error}, result.2 = .returned (.error error) →
      self.issue policy origin now ttl =
        (result.1, .returned (.error error)) :=
    fun hsnd => Prod.ext rfl hsnd
  refine ⟨⟨?_, ?_⟩, fun error => ⟨?_, ?_⟩, ?_, ?_⟩
  · rintro ⟨lease, hlease⟩
    exact admits_of_issue_eq (hok hlease)
  · intro hadmits
    cases hsnd : result.2 with
    | panicked => exact (hpanic hsnd).elim
    | returned value =>
        cases value with
        | ok lease => exact ⟨lease, rfl⟩
        | error error =>
            have hrefuses := refuses_of_issue_eq (herror hsnd)
            exact (hrefuses.not_admits hadmits).elim
  · intro hsnd
    exact refuses_of_issue_eq (herror hsnd)
  · intro hrefuses
    cases hsnd : result.2 with
    | panicked => exact (hpanic hsnd).elim
    | returned value =>
        cases value with
        | ok lease =>
            have hadmits := admits_of_issue_eq (hok hsnd)
            exact (hrefuses.not_admits hadmits).elim
        | error found =>
            have hfound := refuses_of_issue_eq (herror hsnd)
            rw [hfound.unique hrefuses]
  · intro lease hsnd
    exact handout_of_issue_eq (hok hsnd)
  · intro error hsnd
    apply issue_fst_of_ne_ok (herror hsnd)
    simp

/-- A fresh issuer gives the sample workload its first lease. -/
theorem sampleIssuer_hands_out :
    let issuer := new ⟨"agent-0"⟩ (Duration.fromNanos 30)
    let origin : ProvenanceRecord :=
      ⟨sliceContext, ⟨sampleResource, .compute⟩⟩
    let result :=
      issuer.issue samplePolicy origin ⟨5⟩ (Duration.fromNanos 30)
    ∃ lease, result.2 = .returned (.ok lease) ∧
      issuer.Handout samplePolicy origin ⟨5⟩ (Duration.fromNanos 30)
        result.1 lease := by
  intro issuer origin result
  have hexact := issue_exact issuer samplePolicy origin ⟨5⟩
    (Duration.fromNanos 30) (by decide)
  have hadmits : issuer.Admits samplePolicy origin ⟨5⟩
      (Duration.fromNanos 30) :=
    ⟨by decide, by decide, by decide, by decide⟩
  obtain ⟨lease, hlease⟩ := hexact.1.mpr hadmits
  exact ⟨lease, hlease, hexact.2.2.1 lease hlease⟩

end LeaseIssuer

end Eltanin.Core
