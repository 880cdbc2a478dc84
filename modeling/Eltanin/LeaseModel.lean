import Eltanin.PolicyModel

/-!
# Leases and their issuer

A lease is an expiring authorization bound to the provenance record it was
issued against.  Only an issuer creates one, by evaluating the policy over
exactly that record.  Whether a lease is still good is never a field of the
lease: revocation lives with the issuer, and expiry is a comparison with a
clock reading which the caller supplies.
-/

namespace Eltanin.Core

/-- How a call ends: with a value, or by unwinding. -/
inductive Completion (α : Type) where
  | returned (value : α)
  | panicked
  deriving DecidableEq, Repr

/-! ## Time -/

/-- A `std::time::Duration`: whole `u64` seconds and a fraction of a second,
counted in nanoseconds. -/
structure Duration where
  asNanos : ℕ
  inRange : asNanos < UInt64.size * 1000000000
  deriving DecidableEq

theorem Duration.asNanos_inj {first second : Duration} :
    first.asNanos = second.asNanos ↔ first = second := by
  cases first
  cases second
  simp

def Duration.IsZero (self : Duration) : Prop := self.asNanos = 0

instance (duration : Duration) : Decidable duration.IsZero :=
  inferInstanceAs (Decidable (duration.asNanos = 0))

def Duration.fromNanos (nanos : UInt64) : Duration where
  asNanos := nanos.toNat
  inRange := by
    have hbound := nanos.toNat_lt_size
    omega

structure MonotonicTime where
  nanos : UInt64
  deriving DecidableEq, Repr

namespace MonotonicTime

instance : LE MonotonicTime where
  le earlier later := earlier.nanos.toNat ≤ later.nanos.toNat

instance : LT MonotonicTime where
  lt earlier later := earlier.nanos.toNat < later.nanos.toNat

instance (earlier later : MonotonicTime) : Decidable (earlier ≤ later) :=
  inferInstanceAs (Decidable (earlier.nanos.toNat ≤ later.nanos.toNat))

instance (earlier later : MonotonicTime) : Decidable (earlier < later) :=
  inferInstanceAs (Decidable (earlier.nanos.toNat < later.nanos.toNat))

variable {first second third : MonotonicTime}

theorem le_iff_toNat_le :
    first ≤ second ↔ first.nanos.toNat ≤ second.nanos.toNat := Iff.rfl

theorem lt_iff_toNat_lt :
    first < second ↔ first.nanos.toNat < second.nanos.toNat := Iff.rfl

theorem not_le_iff_lt : ¬first ≤ second ↔ second < first := by
  rw [le_iff_toNat_le, lt_iff_toNat_lt]
  omega

theorem lt_of_le_of_lt (hle : first ≤ second) (hlt : second < third) :
    first < third := by
  rw [le_iff_toNat_le] at hle
  rw [lt_iff_toNat_lt] at hlt ⊢
  omega

/-- `self + duration`, unless the nanosecond count leaves the `u64` range. -/
def checkedAdd (self : MonotonicTime) (duration : Duration) :
    Option MonotonicTime :=
  if self.nanos.toNat + duration.asNanos < UInt64.size then
    some ⟨UInt64.ofNat (self.nanos.toNat + duration.asNanos)⟩
  else none

def saturatingDurationSince (self earlier : MonotonicTime) : Duration :=
  Duration.fromNanos
    (UInt64.ofNat (self.nanos.toNat - earlier.nanos.toNat))

def min (self other : MonotonicTime) : MonotonicTime :=
  if self ≤ other then self else other

theorem toNat_min (self other : MonotonicTime) :
    (self.min other).nanos.toNat =
      Nat.min self.nanos.toNat other.nanos.toNat := by
  unfold min
  split
  next hle => exact (Nat.min_eq_left (le_iff_toNat_le.mp hle)).symm
  next hlt =>
    have hother := lt_iff_toNat_lt.mp (not_le_iff_lt.mp hlt)
    exact (Nat.min_eq_right hother.le).symm

theorem checkedAdd_eq_some_iff {self sum : MonotonicTime}
    {duration : Duration} :
    self.checkedAdd duration = some sum ↔
      sum.nanos.toNat = self.nanos.toNat + duration.asNanos := by
  unfold checkedAdd
  constructor
  · intro hsum
    split at hsum
    next hrange =>
      have heq := Option.some.inj hsum
      rw [← heq]
      exact UInt64.toNat_ofNat_of_lt' hrange
    · contradiction
  · intro hsum
    have hrange := sum.nanos.toNat_lt_size
    rw [← hsum, if_pos hrange, UInt64.ofNat_toNat]

theorem asNanos_saturatingDurationSince (self earlier : MonotonicTime) :
    (self.saturatingDurationSince earlier).asNanos =
      self.nanos.toNat - earlier.nanos.toNat := by
  have hrange := self.nanos.toNat_lt_size
  have hbound : self.nanos.toNat - earlier.nanos.toNat < UInt64.size := by omega
  exact UInt64.toNat_ofNat_of_lt' hbound

end MonotonicTime

/-! ## Leases -/

structure IssuerInstanceId where
  tag : String
  deriving DecidableEq, Repr

/-- A correlation identifier without entropy: a lookup key, never a
capability. -/
structure LeaseId where
  issuer : IssuerInstanceId
  sequence : UInt64
  deriving DecidableEq, Repr

structure ComputeLease where
  id : LeaseId
  origin : ProvenanceRecord
  policy : PolicyProvenance
  decisionReason : DecisionReason
  issuedAt : MonotonicTime
  expiresAt : MonotonicTime
  deriving DecidableEq

/-- The only lifecycle operation on a lease value; the identifier stays. -/
def ComputeLease.narrowExpiry (self : ComputeLease)
    (notAfter : MonotonicTime) : ComputeLease :=
  { self with expiresAt := self.expiresAt.min notAfter }

inductive LeaseError where
  | denied (decision : PolicyDecision)
  | nonPositiveTtl
  | ttlExceedsMaximum (requested maximum : Duration)
  | expiryOverflow
  deriving DecidableEq

inductive RevocationOutcome where
  | revoked
  | alreadyRevoked
  | notIssued
  | foreignIssuer
  deriving DecidableEq, Repr

inductive LeaseValidity where
  | valid (remaining : Duration)
  | foreignIssuer (issuedBy : IssuerInstanceId)
  | revoked
  | resourceMismatch
  | actionMismatch
  | workloadMismatch
  | workloadIndeterminate
  | executableMismatch
  | expired (expiredAt : MonotonicTime)
  deriving DecidableEq

def LeaseValidity.isValid : LeaseValidity → Bool
  | .valid _ => true
  | _ => false

/-! ## The issuer -/

structure LeaseIssuer where
  instanceId : IssuerInstanceId
  maxTtl : Duration
  nextSequence : UInt64
  revoked : Finset UInt64
  deriving DecidableEq

namespace LeaseIssuer

def new (instanceId : IssuerInstanceId) (maxTtl : Duration) : LeaseIssuer :=
  ⟨instanceId, maxTtl, 0, ∅⟩

/-- `next_sequence += 1` is an addition with overflow checks: at the last
sequence number it unwinds, before anything has been handed out. -/
def issue (self : LeaseIssuer) (policy : PolicySet)
    (origin : ProvenanceRecord) (now : MonotonicTime) (ttl : Duration) :
    LeaseIssuer × Completion (Except LeaseError ComputeLease) :=
  if ttl.IsZero then (self, .returned (.error .nonPositiveTtl))
  else if ttl.asNanos > self.maxTtl.asNanos then
    (self, .returned (.error (.ttlExceedsMaximum ttl self.maxTtl)))
  else
    let decision := policy.evaluate origin.context origin.request
    if decision.effect ≠ .allow then
      (self, .returned (.error (.denied decision)))
    else
      match now.checkedAdd ttl with
      | none => (self, .returned (.error .expiryOverflow))
      | some expiresAt =>
          if self.nextSequence.toNat + 1 < UInt64.size then
            ({ self with nextSequence := self.nextSequence + 1 },
              .returned (.ok
                { id := ⟨self.instanceId, self.nextSequence⟩
                  origin := origin
                  policy := decision.policy
                  decisionReason := decision.reason
                  issuedAt := now
                  expiresAt := expiresAt }))
          else (self, .panicked)

def revoke (self : LeaseIssuer) (id : LeaseId) :
    LeaseIssuer × RevocationOutcome :=
  if id.issuer ≠ self.instanceId then (self, .foreignIssuer)
  else if id.sequence ≥ self.nextSequence then (self, .notIssued)
  else if id.sequence ∈ self.revoked then (self, .alreadyRevoked)
  else ({ self with revoked := insert id.sequence self.revoked }, .revoked)

/-- The order of the checks is the order of the source: issuer, revocation,
resource, action, process, executable, expiry. -/
def validate (self : LeaseIssuer) (lease : ComputeLease)
    (presented : ProvenanceRecord) (now : MonotonicTime) : LeaseValidity :=
  if lease.id.issuer ≠ self.instanceId then
    .foreignIssuer lease.id.issuer
  else if lease.id.sequence ∈ self.revoked then .revoked
  else if lease.origin.request.resource ≠ presented.request.resource then
    .resourceMismatch
  else if lease.origin.request.action ≠ presented.request.action then
    .actionMismatch
  else
    match lease.origin.context.workload.compareProcess
        presented.context.workload with
    | .different => .workloadMismatch
    | .indeterminate => .workloadIndeterminate
    | .same =>
        match lease.origin.context.workload.compareExecutable
            presented.context.workload with
        | .different => .executableMismatch
        | .indeterminate => .workloadIndeterminate
        | .same =>
            if now ≥ lease.expiresAt then .expired lease.expiresAt
            else .valid (lease.expiresAt.saturatingDurationSince now)

/-- Everything a successful `issue` does and has checked. -/
structure Issued (issuer : LeaseIssuer) (policy : PolicySet)
    (requested : ProvenanceRecord) (now : MonotonicTime) (ttl : Duration)
    (next : LeaseIssuer) (lease : ComputeLease) : Prop where
  next_eq : next = { issuer with nextSequence := issuer.nextSequence + 1 }
  room : issuer.nextSequence.toNat + 1 < UInt64.size
  id : lease.id = ⟨issuer.instanceId, issuer.nextSequence⟩
  origin : lease.origin = requested
  allowed :
    (policy.evaluate requested.context requested.request).effect = .allow
  issuedAt : lease.issuedAt = now
  expiresAt : lease.expiresAt.nanos.toNat = now.nanos.toNat + ttl.asNanos
  ttl_pos : 0 < ttl.asNanos
  ttl_le : ttl.asNanos ≤ issuer.maxTtl.asNanos

theorem issued_of_issue_eq {self next : LeaseIssuer} {policy : PolicySet}
    {origin : ProvenanceRecord} {now : MonotonicTime} {ttl : Duration}
    {lease : ComputeLease}
    (hissue : self.issue policy origin now ttl =
      (next, .returned (.ok lease))) :
    self.Issued policy origin now ttl next lease := by
  unfold issue at hissue
  split at hissue
  · simp at hissue
  next hzero =>
  split at hissue
  · simp at hissue
  next hmaximum =>
  simp only at hissue
  split at hissue
  · simp at hissue
  next hallow =>
  split at hissue
  · simp at hissue
  next expiresAt hadd =>
  split at hissue
  next hroom =>
    simp only [Prod.mk.injEq, Completion.returned.injEq,
      Except.ok.injEq] at hissue
    rcases hissue with ⟨hnext, hlease⟩
    subst hlease
    exact
      { next_eq := hnext.symm
        room := hroom
        id := rfl
        origin := rfl
        allowed := not_not.mp hallow
        issuedAt := rfl
        expiresAt := MonotonicTime.checkedAdd_eq_some_iff.mp hadd
        ttl_pos := Nat.pos_of_ne_zero hzero
        ttl_le := not_lt.mp hmaximum }
  · simp at hissue

theorem issue_fst_of_ne_ok {self next : LeaseIssuer} {policy : PolicySet}
    {origin : ProvenanceRecord} {now : MonotonicTime} {ttl : Duration}
    {completion : Completion (Except LeaseError ComputeLease)}
    (hissue : self.issue policy origin now ttl = (next, completion))
    (hfailed : ∀ lease, completion ≠ .returned (.ok lease)) :
    next = self := by
  unfold issue at hissue
  grind

theorem error_of_issue_eq {self next : LeaseIssuer}
    {policy : PolicySet} {origin : ProvenanceRecord} {now : MonotonicTime}
    {ttl : Duration} {error : LeaseError}
    (hpositive : ¬ttl.IsZero) (hwithin : ttl = self.maxTtl)
    (hissue : self.issue policy origin now ttl =
      (next, .returned (.error error))) :
    let decision := policy.evaluate origin.context origin.request
    (decision.effect ≠ .allow ∧ error = .denied decision) ∨
      (decision.effect = .allow ∧ error = .expiryOverflow) := by
  intro decision
  have hle : ¬ttl.asNanos > self.maxTtl.asNanos := by
    rw [hwithin]
    omega
  simp only [issue, hpositive, hle, if_false] at hissue
  split at hissue
  next hdeny =>
    simp only [Prod.mk.injEq, Completion.returned.injEq,
      Except.error.injEq] at hissue
    exact .inl ⟨hdeny, hissue.2.symm⟩
  next hallow =>
    split at hissue
    · simp only [Prod.mk.injEq, Completion.returned.injEq,
        Except.error.injEq] at hissue
      exact .inr ⟨not_not.mp hallow, hissue.2.symm⟩
    · split at hissue <;> simp at hissue

theorem revoke_of_live {self : LeaseIssuer} {id : LeaseId}
    (hissuer : id.issuer = self.instanceId)
    (hissued : id.sequence.toNat < self.nextSequence.toNat)
    (hlive : id.sequence ∉ self.revoked) :
    self.revoke id =
      ({ self with revoked := insert id.sequence self.revoked },
        .revoked) := by
  have hnot : ¬id.sequence ≥ self.nextSequence := by
    rw [ge_iff_le, UInt64.le_iff_toNat_le]
    omega
  simp [revoke, hissuer, hnot, hlive]

/-- A revocation takes effect for an issued identifier which is not revoked
yet, and changes nothing otherwise. -/
theorem revoke_cases (self : LeaseIssuer) (id : LeaseId) :
    ((self.revoke id).2 = .revoked ∧ id.issuer = self.instanceId ∧
        id.sequence.toNat < self.nextSequence.toNat ∧
        id.sequence ∉ self.revoked ∧
        (self.revoke id).1 =
          { self with revoked := insert id.sequence self.revoked }) ∨
      ((self.revoke id).2 ≠ .revoked ∧ (self.revoke id).1 = self) := by
  unfold revoke
  split
  · exact .inr ⟨by simp, rfl⟩
  next hissuer =>
  split
  · exact .inr ⟨by simp, rfl⟩
  next hissued =>
  split
  · exact .inr ⟨by simp, rfl⟩
  next hlive =>
    rw [ge_iff_le, UInt64.le_iff_toNat_le, not_le] at hissued
    exact .inl ⟨rfl, not_not.mp hissuer, hissued, hlive, rfl⟩

theorem issue_fst_cases (self : LeaseIssuer) (policy : PolicySet)
    (origin : ProvenanceRecord) (now : MonotonicTime) (ttl : Duration) :
    (self.issue policy origin now ttl).1 =
        { self with nextSequence := self.nextSequence + 1 } ∨
      (self.issue policy origin now ttl).1 = self := by
  cases hissue : self.issue policy origin now ttl with
  | mk next completion =>
      by_cases hok : ∃ lease, completion = .returned (.ok lease)
      · rcases hok with ⟨lease, rfl⟩
        exact .inl (issued_of_issue_eq hissue).next_eq
      · right
        apply issue_fst_of_ne_ok hissue
        intro lease heq
        exact hok ⟨lease, heq⟩

structure Validated (issuer : LeaseIssuer) (lease : ComputeLease)
    (presented : ProvenanceRecord) (now : MonotonicTime) : Prop where
  instanceId : lease.id.issuer = issuer.instanceId
  live : lease.id.sequence ∉ issuer.revoked
  request : lease.origin.request = presented.request
  process : lease.origin.context.workload.compareProcess
    presented.context.workload = .same
  executable : lease.origin.context.workload.compareExecutable
    presented.context.workload = .same
  unexpired : now < lease.expiresAt

theorem isValid_validate_iff (self : LeaseIssuer) (lease : ComputeLease)
    (presented : ProvenanceRecord) (now : MonotonicTime) :
    (self.validate lease presented now).isValid = true ↔
      self.Validated lease presented now := by
  have hrequest : lease.origin.request = presented.request ↔
      lease.origin.request.resource = presented.request.resource ∧
        lease.origin.request.action = presented.request.action :=
    ComputeRequest.eq_iff
  have hexpired : ¬now ≥ lease.expiresAt ↔ now < lease.expiresAt :=
    MonotonicTime.not_le_iff_lt
  constructor
  · intro hvalid
    unfold validate at hvalid
    split at hvalid
    · contradiction
    next hissuer =>
    split at hvalid
    · contradiction
    next hlive =>
    split at hvalid
    · contradiction
    next hresource =>
    split at hvalid
    · contradiction
    next haction =>
    split at hvalid
    · contradiction
    · contradiction
    next hprocess =>
    split at hvalid
    · contradiction
    · contradiction
    next hexecutable =>
    split at hvalid
    · contradiction
    next hunexpired =>
    exact
      { instanceId := not_not.mp hissuer
        live := hlive
        request := hrequest.mpr ⟨not_not.mp hresource, not_not.mp haction⟩
        process := hprocess
        executable := hexecutable
        unexpired := hexpired.mp hunexpired }
  · intro hvalidated
    have hsame := hrequest.mp hvalidated.request
    simp [validate, hvalidated.instanceId, hvalidated.live, hsame,
      hvalidated.process, hvalidated.executable,
      hexpired.mpr hvalidated.unexpired, LeaseValidity.isValid]

theorem validate_eq_valid_iff {self : LeaseIssuer} {lease : ComputeLease}
    {presented : ProvenanceRecord} {now : MonotonicTime}
    {remaining : Duration} :
    self.validate lease presented now = .valid remaining ↔
      self.Validated lease presented now ∧
        remaining = lease.expiresAt.saturatingDurationSince now := by
  have hremaining :
      (self.validate lease presented now).isValid = true →
        self.validate lease presented now =
          .valid (lease.expiresAt.saturatingDurationSince now) := by
    intro hvalid
    unfold validate at hvalid ⊢
    grind [LeaseValidity.isValid]
  rw [← isValid_validate_iff]
  constructor
  · intro hvalidate
    have hvalid : (self.validate lease presented now).isValid = true := by
      rw [hvalidate, LeaseValidity.isValid]
    have heq := hremaining hvalid
    rw [hvalidate] at heq
    exact ⟨hvalid, LeaseValidity.valid.inj heq⟩
  · rintro ⟨hvalid, rfl⟩
    exact hremaining hvalid

end LeaseIssuer

end Eltanin.Core
