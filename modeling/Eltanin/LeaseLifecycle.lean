import Eltanin.LeaseEvidence
import Mathlib.Logic.Function.Basic

/-!
# The life of a lease

Any number of issuers, called in any order.  A lease is valid exactly while
nothing has ended it: its own issuer has not revoked its identifier, and the
clock has not reached the least of its expiry and the bounds it was narrowed
to.  Both ends are final, and no other call brings them about.
-/

namespace Eltanin.Core

/-! ## Issuers under calls -/

inductive IssuerCall where
  | issue (policy : PolicySet) (origin : ProvenanceRecord)
      (now : MonotonicTime) (ttl : Duration)
  | revoke (id : LeaseId)

inductive IssuerAnswer where
  | issue (completion : Completion (Except LeaseError ComputeLease))
  | revoke (outcome : RevocationOutcome)

def LeaseIssuer.perform (self : LeaseIssuer) :
    IssuerCall → LeaseIssuer × IssuerAnswer
  | .issue policy origin now ttl =>
      let issued := self.issue policy origin now ttl
      (issued.1, .issue issued.2)
  | .revoke id =>
      let revoked := self.revoke id
      (revoked.1, .revoke revoked.2)

structure IssuerEvent (ι : Type*) where
  issuer : ι
  call : IssuerCall
  answer : IssuerAnswer

/-- Issuers side by side, and everything they have answered so far. -/
structure Fleet (ι : Type*) where
  issuers : ι → LeaseIssuer
  transcript : List (IssuerEvent ι)

namespace Fleet

variable {ι : Type*}

def new (instances : ι → IssuerInstanceId) (maxTtl : ι → Duration) :
    Fleet ι where
  issuers i := .new (instances i) (maxTtl i)
  transcript := []

def call [DecidableEq ι] (fleet : Fleet ι) (made : ι × IssuerCall) :
    Fleet ι :=
  let performed := (fleet.issuers made.1).perform made.2
  { issuers := Function.update fleet.issuers made.1 performed.1
    transcript := fleet.transcript ++ [⟨made.1, made.2, performed.2⟩] }

def run [DecidableEq ι] (fleet : Fleet ι) (calls : List (ι × IssuerCall)) :
    Fleet ι :=
  calls.foldl call fleet

def Issued (fleet : Fleet ι) (i : ι) (origin : ProvenanceRecord)
    (lease : ComputeLease) : Prop :=
  ∃ policy now ttl,
    ⟨i, .issue policy origin now ttl, .issue (.returned (.ok lease))⟩ ∈
      fleet.transcript

/-- Issuer `i` has answered a revocation of `id` with `Revoked`. -/
def Revoked (fleet : Fleet ι) (i : ι) (id : LeaseId) : Prop :=
  ⟨i, .revoke id, .revoke .revoked⟩ ∈ fleet.transcript

end Fleet

/-! ## What one call does -/

namespace LeaseIssuer

variable {self : LeaseIssuer} {call : IssuerCall} {sequence : UInt64}

theorem instanceId_perform :
    (self.perform call).1.instanceId = self.instanceId := by
  cases call with
  | issue policy origin now ttl =>
      rcases self.issue_fst_cases policy origin now ttl with heq | heq <;>
        simp [perform, heq]
  | revoke id =>
      rcases self.revoke_cases id with ⟨-, -, -, -, heq⟩ | ⟨-, heq⟩ <;>
        simp [perform, heq]

theorem mem_revoked_perform_iff :
    sequence ∈ (self.perform call).1.revoked ↔
      sequence ∈ self.revoked ∨
        call = .revoke ⟨self.instanceId, sequence⟩ ∧
          (self.perform call).2 = .revoke .revoked := by
  cases call with
  | issue policy origin now ttl =>
      rcases self.issue_fst_cases policy origin now ttl with heq | heq <;>
        simp [perform, heq]
  | revoke id =>
      rcases self.revoke_cases id with
        ⟨houtcome, hissuer, -, -, heq⟩ | ⟨houtcome, heq⟩
      · rcases id with ⟨issuer, revoked⟩
        simp only at hissuer
        subst hissuer
        simp [perform, heq, houtcome, or_comm, eq_comm]
      · simp [perform, heq, houtcome]

theorem issued_of_perform_eq {policy : PolicySet}
    {origin : ProvenanceRecord} {now : MonotonicTime} {ttl : Duration}
    {lease : ComputeLease}
    (hperform : (self.perform (.issue policy origin now ttl)).2 =
      .issue (.returned (.ok lease))) :
    lease.id.issuer = self.instanceId ∧ lease.origin = origin := by
  simp only [perform, IssuerAnswer.issue.injEq] at hperform
  have hissued := issued_of_issue_eq (Prod.ext rfl hperform)
  rw [hissued.id]
  exact ⟨rfl, hissued.origin⟩

end LeaseIssuer

namespace Fleet

variable {ι : Type*} {instances : ι → IssuerInstanceId}
  {maxTtl : ι → Duration} {fleet : Fleet ι}

/-- What the issuers hold is what the transcript says. -/
structure Faithful (instances : ι → IssuerInstanceId) (fleet : Fleet ι) :
    Prop where
  instanceId : ∀ i, (fleet.issuers i).instanceId = instances i
  mem_revoked_iff : ∀ i sequence,
    sequence ∈ (fleet.issuers i).revoked ↔
      fleet.Revoked i ⟨instances i, sequence⟩
  issued : ∀ {i origin lease}, fleet.Issued i origin lease →
    lease.id.issuer = instances i ∧ lease.origin = origin

theorem faithful_new : (new instances maxTtl).Faithful instances where
  instanceId _ := rfl
  mem_revoked_iff i sequence := by
    simp [new, LeaseIssuer.new, Revoked]
  issued hissued := by simp [new, Issued] at hissued

variable [DecidableEq ι] {made : ι × IssuerCall}

theorem issuers_call_of_ne {i : ι} (hne : i ≠ made.1) :
    (fleet.call made).issuers i = fleet.issuers i :=
  Function.update_of_ne hne _ _

theorem Faithful.call (hfaithful : fleet.Faithful instances) :
    (fleet.call made).Faithful instances := by
  rcases made with ⟨j, called⟩
  constructor
  · intro i
    by_cases heq : i = j
    · subst heq
      simp [Fleet.call, LeaseIssuer.instanceId_perform,
        hfaithful.instanceId i]
    · rw [issuers_call_of_ne heq, hfaithful.instanceId]
  · intro i sequence
    by_cases heq : i = j
    · subst heq
      have hbefore := hfaithful.mem_revoked_iff i sequence
      simp only [Revoked] at hbefore
      simp [Fleet.call, LeaseIssuer.mem_revoked_perform_iff, Revoked,
        hbefore, hfaithful.instanceId i, eq_comm]
    · rw [issuers_call_of_ne heq, hfaithful.mem_revoked_iff]
      simp [Fleet.call, Revoked, heq]
  · intro i origin lease hissued
    rcases hissued with ⟨policy, now, ttl, hmem⟩
    simp only [Fleet.call, List.mem_append, List.mem_singleton,
      IssuerEvent.mk.injEq] at hmem
    rcases hmem with hbefore | ⟨rfl, rfl, hanswer⟩
    · exact hfaithful.issued ⟨policy, now, ttl, hbefore⟩
    · rw [← hfaithful.instanceId]
      exact LeaseIssuer.issued_of_perform_eq hanswer.symm

theorem Faithful.run (hfaithful : fleet.Faithful instances)
    (calls : List (ι × IssuerCall)) :
    (fleet.run calls).Faithful instances := by
  induction calls generalizing fleet with
  | nil => exact hfaithful
  | cons made rest ih => exact ih hfaithful.call

theorem subset_transcript_run (fleet : Fleet ι)
    (calls : List (ι × IssuerCall)) :
    fleet.transcript ⊆ (fleet.run calls).transcript := by
  induction calls generalizing fleet with
  | nil => exact List.Subset.refl _
  | cons made rest ih =>
      exact List.Subset.trans (List.subset_append_left _ _)
        (ih (fleet.call made))

/-- Only a call which revokes `id` at its own issuer makes it revoked. -/
theorem revoked_run_iff_of_not_mem {i : ι} {id : LeaseId}
    {calls : List (ι × IssuerCall)} (hnot : (i, .revoke id) ∉ calls) :
    (fleet.run calls).Revoked i id ↔ fleet.Revoked i id := by
  induction calls generalizing fleet with
  | nil => exact Iff.rfl
  | cons made rest ih =>
      rw [List.mem_cons, not_or] at hnot
      have hstep : (fleet.call made).Revoked i id ↔ fleet.Revoked i id := by
        simp only [Revoked, Fleet.call, List.mem_append,
          List.mem_singleton, IssuerEvent.mk.injEq, or_iff_left_iff_imp]
        rintro ⟨hi, hcall, -⟩
        exact (hnot.1 (Prod.ext hi hcall)).elim
      exact (ih hnot.2).trans hstep

end Fleet

/-! ## Narrowed leases -/

namespace ComputeLease

def narrowedBy (lease : ComputeLease) (bounds : List MonotonicTime) :
    ComputeLease :=
  bounds.foldl narrowExpiry lease

/-- The least of the expiry and the bounds, in nanoseconds. -/
def leastExpiry (lease : ComputeLease) (bounds : List MonotonicTime) : ℕ :=
  (bounds.map fun bound => bound.nanos.toNat).foldl min
    lease.expiresAt.nanos.toNat

variable (lease : ComputeLease) (bounds : List MonotonicTime)

theorem expiresAt_narrowedBy :
    (lease.narrowedBy bounds).expiresAt.nanos.toNat =
      lease.leastExpiry bounds := by
  induction bounds generalizing lease with
  | nil => rfl
  | cons bound rest ih =>
      have hrest := ih (lease.narrowExpiry bound)
      rw [leastExpiry, narrowExpiry, MonotonicTime.toNat_min] at hrest
      exact hrest

theorem id_narrowedBy : (lease.narrowedBy bounds).id = lease.id := by
  induction bounds generalizing lease with
  | nil => rfl
  | cons bound rest ih => exact ih (lease.narrowExpiry bound)

theorem origin_narrowedBy :
    (lease.narrowedBy bounds).origin = lease.origin := by
  induction bounds generalizing lease with
  | nil => rfl
  | cons bound rest ih => exact ih (lease.narrowExpiry bound)

theorem leastExpiry_append_le (bound : MonotonicTime) :
    lease.leastExpiry (bounds ++ [bound]) ≤ lease.leastExpiry bounds := by
  simp [leastExpiry]

end ComputeLease

/-! ## The life of an issued lease -/

namespace Fleet

variable {ι : Type*} {instances : ι → IssuerInstanceId}
  {maxTtl : ι → Duration} {fleet : Fleet ι} {i j : ι}
  {origin presented : ProvenanceRecord} {lease : ComputeLease}
  {bounds : List MonotonicTime} {now : MonotonicTime}
  {remaining : Duration}

/-- The exact conditions under which a lease bound to `origin` is valid. -/
structure Good (fleet : Fleet ι) (i : ι) (origin : ProvenanceRecord)
    (id : LeaseId) (least : ℕ) (presented : ProvenanceRecord)
    (now : MonotonicTime) : Prop where
  resource : presented.request.resource = origin.request.resource
  action : presented.request.action = origin.request.action
  process : origin.context.workload.compareProcess
    presented.context.workload = .same
  executable : origin.context.workload.compareExecutable
    presented.context.workload = .same
  unrevoked : ¬fleet.Revoked i id
  unexpired : now.nanos.toNat < least

theorem Faithful.validated_narrowedBy_iff
    (hfaithful : fleet.Faithful instances)
    (hissued : fleet.Issued i origin lease) :
    (fleet.issuers i).Validated (lease.narrowedBy bounds) presented now ↔
      fleet.Good i origin lease.id (lease.leastExpiry bounds) presented
        now := by
  rcases hfaithful.issued hissued with ⟨hissuer, horigin⟩
  have hid := lease.id_narrowedBy bounds
  have hbound := lease.origin_narrowedBy bounds
  have hrevoked : lease.id.sequence ∈ (fleet.issuers i).revoked ↔
      fleet.Revoked i lease.id := by
    rw [hfaithful.mem_revoked_iff, ← hissuer]
  have hexpiry : now < (lease.narrowedBy bounds).expiresAt ↔
      now.nanos.toNat < lease.leastExpiry bounds := by
    rw [MonotonicTime.lt_iff_toNat_lt, lease.expiresAt_narrowedBy]
  constructor
  · rintro ⟨-, hlive, hrequest, hprocess, hexecutable, hunexpired⟩
    rw [hid, hrevoked] at hlive
    rw [hbound, horigin] at hrequest hprocess hexecutable
    exact
      { resource := congrArg ComputeRequest.resource hrequest.symm
        action := congrArg ComputeRequest.action hrequest.symm
        process := hprocess
        executable := hexecutable
        unrevoked := hlive
        unexpired := hexpiry.mp hunexpired }
  · rintro ⟨hresource, haction, hprocess, hexecutable, hlive, hunexpired⟩
    constructor
    · rw [hid, hissuer, hfaithful.instanceId]
    · rwa [hid, hrevoked]
    · rw [hbound, horigin]
      exact ComputeRequest.eq_iff.mpr ⟨hresource.symm, haction.symm⟩
    · rwa [hbound, horigin]
    · rwa [hbound, horigin]
    · exact hexpiry.mpr hunexpired

theorem Faithful.validate_narrowedBy_eq_valid_iff
    (hfaithful : fleet.Faithful instances)
    (hissued : fleet.Issued i origin lease) :
    (fleet.issuers i).validate (lease.narrowedBy bounds) presented now =
        .valid remaining ↔
      fleet.Good i origin lease.id (lease.leastExpiry bounds) presented now ∧
        remaining.asNanos = lease.leastExpiry bounds - now.nanos.toNat := by
  rw [LeaseIssuer.validate_eq_valid_iff,
    hfaithful.validated_narrowedBy_iff hissued,
    ← lease.expiresAt_narrowedBy bounds,
    ← MonotonicTime.asNanos_saturatingDurationSince]
  apply and_congr_right
  intro _
  exact Duration.asNanos_inj.symm

theorem Faithful.isValid_narrowedBy_iff
    (hfaithful : fleet.Faithful instances)
    (hissued : fleet.Issued i origin lease) :
    ((fleet.issuers i).validate (lease.narrowedBy bounds) presented
        now).isValid = true ↔
      fleet.Good i origin lease.id (lease.leastExpiry bounds) presented
        now := by
  rw [LeaseIssuer.isValid_validate_iff,
    hfaithful.validated_narrowedBy_iff hissued]

theorem Issued.run [DecidableEq ι] (hissued : fleet.Issued i origin lease)
    (later : List (ι × IssuerCall)) :
    (fleet.run later).Issued i origin lease := by
  rcases hissued with ⟨policy, now, ttl, hmem⟩
  exact ⟨policy, now, ttl, fleet.subset_transcript_run later hmem⟩

theorem validate_congr {first second : LeaseIssuer}
    (hinstance : first.instanceId = second.instanceId)
    (hrevoked : lease.id.sequence ∈ first.revoked ↔
      lease.id.sequence ∈ second.revoked) :
    first.validate lease presented now =
      second.validate lease presented now := by
  simp only [LeaseIssuer.validate, hinstance, hrevoked]

theorem Faithful.validate_run_of_not_mem [DecidableEq ι]
    (hfaithful : fleet.Faithful instances)
    (hissued : fleet.Issued i origin lease)
    {later : List (ι × IssuerCall)} (hnot : (i, .revoke lease.id) ∉ later) :
    ((fleet.run later).issuers i).validate (lease.narrowedBy bounds)
        presented now =
      (fleet.issuers i).validate (lease.narrowedBy bounds) presented now := by
  have hlater := hfaithful.run later
  have hissuer := (hfaithful.issued hissued).1
  apply validate_congr
  · rw [hlater.instanceId, hfaithful.instanceId]
  · rw [hlater.mem_revoked_iff, hfaithful.mem_revoked_iff,
      lease.id_narrowedBy, ← hissuer]
    exact revoked_run_iff_of_not_mem hnot

theorem Faithful.foreign (hfaithful : fleet.Faithful instances)
    (hissued : fleet.Issued i origin lease)
    (hforeign : instances j ≠ instances i) :
    (fleet.issuers j).validate (lease.narrowedBy bounds) presented now =
        .foreignIssuer (instances i) ∧
      (fleet.issuers j).revoke lease.id =
        (fleet.issuers j, .foreignIssuer) := by
  have hissuer := (hfaithful.issued hissued).1
  have hne : instances i ≠ (fleet.issuers j).instanceId := by
    rw [hfaithful.instanceId]
    exact hforeign.symm
  constructor
  · simp [LeaseIssuer.validate, lease.id_narrowedBy, hissuer, hne]
  · simp [LeaseIssuer.revoke, hissuer, hne]

/-- The life of a lease issued by issuer `i`, as seen after `calls` and again
after any `later` calls: when it is valid, that both of its ends are final,
that narrowing gives nothing, and that nothing else touches it. -/
theorem issued_lease_lifecycle [DecidableEq ι]
    (instances : ι → IssuerInstanceId) (maxTtl : ι → Duration)
    (calls later : List (ι × IssuerCall)) (i : ι)
    (origin : ProvenanceRecord) (lease : ComputeLease)
    (hissued : ((new instances maxTtl).run calls).Issued i origin lease) :
    let fleet := (new instances maxTtl).run calls
    let final := fleet.run later
    (∀ bounds presented now remaining,
      (fleet.issuers i).validate (lease.narrowedBy bounds) presented now =
          .valid remaining ↔
        fleet.Good i origin lease.id (lease.leastExpiry bounds) presented
            now ∧
          remaining.asNanos =
            lease.leastExpiry bounds - now.nanos.toNat) ∧
    (∀ bounds presented (now reading : MonotonicTime),
      fleet.Revoked i lease.id ∨
          lease.leastExpiry bounds ≤ now.nanos.toNat ∧ now ≤ reading →
        ((final.issuers i).validate (lease.narrowedBy bounds) presented
          reading).isValid = false) ∧
    (∀ bounds bound presented now,
      ((final.issuers i).validate (lease.narrowedBy bounds) presented
          now).isValid = false →
        ((final.issuers i).validate
          ((lease.narrowedBy bounds).narrowExpiry bound) presented
          now).isValid = false) ∧
    ((i, .revoke lease.id) ∉ later → ∀ bounds presented now,
      (final.issuers i).validate (lease.narrowedBy bounds) presented now =
        (fleet.issuers i).validate (lease.narrowedBy bounds) presented
          now) ∧
    (∀ j, instances j ≠ instances i → ∀ bounds presented now,
      (final.issuers j).validate (lease.narrowedBy bounds) presented now =
          .foreignIssuer (instances i) ∧
        (final.issuers j).revoke lease.id =
          (final.issuers j, .foreignIssuer)) := by
  intro fleet final
  have hfaithful : fleet.Faithful instances := faithful_new.run calls
  have hfinal : final.Faithful instances := hfaithful.run later
  have hstill : final.Issued i origin lease := hissued.run later
  refine ⟨?_, ?_, ?_, ?_, ?_⟩
  · intro bounds presented now remaining
    exact hfaithful.validate_narrowedBy_eq_valid_iff hissued
  · intro bounds presented now reading hended
    rw [← Bool.not_eq_true, hfinal.isValid_narrowedBy_iff hstill]
    intro hgood
    rcases hended with hrevoked | ⟨hexpired, hle⟩
    · exact hgood.unrevoked (fleet.subset_transcript_run later hrevoked)
    · have hreading := hgood.unexpired
      rw [MonotonicTime.le_iff_toNat_le] at hle
      omega
  · intro bounds bound presented now hinvalid
    have hchain : (lease.narrowedBy bounds).narrowExpiry bound =
        lease.narrowedBy (bounds ++ [bound]) := by
      simp [ComputeLease.narrowedBy]
    rw [← Bool.not_eq_true, hfinal.isValid_narrowedBy_iff hstill] at hinvalid
    rw [hchain, ← Bool.not_eq_true, hfinal.isValid_narrowedBy_iff hstill]
    intro hgood
    apply hinvalid
    exact { hgood with
      unexpired := hgood.unexpired.trans_le
        (lease.leastExpiry_append_le bounds bound) }
  · intro hnot bounds presented now
    exact hfaithful.validate_run_of_not_mem hissued hnot
  · intro j hforeign bounds presented now
    exact hfinal.foreign hstill hforeign

def serviceFleet : Fleet Bool :=
  (new (fun first => cond first ⟨"agent-1"⟩ ⟨"agent-2"⟩)
    fun _ => .fromNanos 60).run
      [(true, .issue samplePolicy (serviceRecord boundHash) ⟨0⟩
        (.fromNanos 60))]

theorem serviceLease_lifecycle :
    ((serviceFleet.run [(true, .revoke serviceLease.id)]).issuers
        false).validate (serviceLease.narrowedBy [⟨40⟩])
        (serviceRecord boundHash) ⟨20⟩ = .foreignIssuer ⟨"agent-1"⟩ ∧
      (serviceFleet.issuers true).validate (serviceLease.narrowedBy [⟨40⟩])
        (serviceRecord boundHash) ⟨20⟩ = .valid ⟨20, by decide⟩ := by
  have hissued : serviceFleet.Issued true (serviceRecord boundHash)
      serviceLease := by
    refine ⟨samplePolicy, ⟨0⟩, ⟨60, by decide⟩, ?_⟩
    exact List.mem_singleton.mpr rfl
  have hlife := issued_lease_lifecycle _ _ _
    [(true, .revoke serviceLease.id)] true (serviceRecord boundHash)
    serviceLease hissued
  refine ⟨(hlife.2.2.2.2 false (by decide) _ _ _).1, ?_⟩
  apply (hlife.1 [⟨40⟩] _ ⟨20⟩ ⟨20, by decide⟩).mpr
  refine ⟨?_, by decide⟩
  constructor <;> first | decide | simp [Revoked, new, run, call]

end Fleet

end Eltanin.Core
