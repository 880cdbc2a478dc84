import Eltanin.PolicyEvidenceMonotonicity
import Eltanin.LeaseModel

/-!
# Hidden evidence and the validity of a lease

The executable is compared by the strongest evidence present on both sides:
by hash, and by path when a hash is not available.  Evidence which goes
missing can therefore change which comparison is made.  A process comparison
never profits from that; an executable comparison does in exactly one case,
when the two hashes would have contradicted each other.
-/

namespace Eltanin.Core

def ProvenanceRecord.ErasedTo (record erased : ProvenanceRecord) : Prop :=
  record.context.ErasedTo erased.context ∧ erased.request = record.request

section Evidence

variable {α : Type} {original erased : Evidence α} {value : α}

theorem Evidence.ErasedTo.trusted?_eq_some
    (herased : original.ErasedTo erased)
    (htrusted : erased.trusted? = some value) :
    original.trusted? = some value := by
  rcases herased with heq | hunobserved
  · rwa [← heq]
  · cases erased with
    | present value source => simp [Evidence.Unobserved] at hunobserved
    | missing reason => contradiction
    | unsupported => contradiction

end Evidence

/-- Both executable hashes are trusted, and they differ. -/
def WorkloadIdentity.HashContradicts (self other : WorkloadIdentity) :
    Prop :=
  ∃ hash otherHash, self.executableHash.trusted? = some hash ∧
    other.executableHash.trusted? = some otherHash ∧ hash ≠ otherHash

section Erased

variable {context erased : ExecutionContext} {bound : WorkloadIdentity}

theorem WorkloadIdentity.compareProcess_of_erased
    (herased : context.ErasedTo erased)
    (hsame : bound.compareProcess erased.workload = .same) :
    bound.compareProcess context.workload = .same := by
  rw [compareProcess_eq_same_iff] at hsame ⊢
  rcases hsame with ⟨hpid, token, hbound, htoken⟩
  refine ⟨hpid.trans herased.pid, token, hbound, ?_⟩
  exact herased.processStart.trusted?_eq_some htoken

theorem WorkloadIdentity.compareExecutable_of_erased
    (herased : context.ErasedTo erased)
    (hsame : bound.compareExecutable erased.workload = .same) :
    bound.compareExecutable context.workload = .same ∨
      bound.HashContradicts context.workload := by
  rw [compareExecutable_eq_same_iff] at hsame ⊢
  rcases hsame with ⟨hash, hbound, hhash⟩ | ⟨-, path, hbound, hpath⟩
  · have hcontext := herased.executableHash.trusted?_eq_some hhash
    exact .inl (.inl ⟨hash, hbound, hcontext⟩)
  · have hcontext := herased.executablePath.trusted?_eq_some hpath
    -- The path decided for the erased record; it decides here too unless
    -- the hash which was hidden is one the lease is bound to as well.
    cases hself : bound.executableHash.trusted? with
    | none => exact .inl (.inr ⟨.inl rfl, path, hbound, hcontext⟩)
    | some hash =>
        cases hother : context.workload.executableHash.trusted? with
        | none => exact .inl (.inr ⟨.inr rfl, path, hbound, hcontext⟩)
        | some otherHash =>
            by_cases heq : hash = otherHash
            · subst heq
              exact .inl (.inl ⟨hash, rfl, rfl⟩)
            · exact .inr ⟨hash, otherHash, hself, hother, heq⟩

end Erased

theorem WorkloadIdentity.HashContradicts.compareExecutable_eq
    {self other : WorkloadIdentity}
    (hcontradicts : self.HashContradicts other) :
    self.compareExecutable other = .different := by
  rcases hcontradicts with ⟨hash, otherHash, hself, hother, hne⟩
  exact compareExecutable_of_hash_ne hself hother hne

namespace LeaseIssuer

variable {issuer : LeaseIssuer} {lease : ComputeLease}
  {presented erased : ProvenanceRecord} {now : MonotonicTime}

theorem validate_of_executable_different
    (hinstance : lease.id.issuer = issuer.instanceId)
    (hlive : lease.id.sequence ∉ issuer.revoked)
    (hrequest : lease.origin.request = presented.request)
    (hprocess : lease.origin.context.workload.compareProcess
      presented.context.workload = .same)
    (hexecutable : lease.origin.context.workload.compareExecutable
      presented.context.workload = .different) :
    issuer.validate lease presented now = .executableMismatch := by
  simp [validate, hinstance, hlive, hrequest, hprocess, hexecutable]

/-- A record with hidden evidence for which a lease is valid: with nothing
hidden the lease is valid too, for as long, unless the hidden hash contradicts
the hash the lease is bound to. -/
theorem validate_of_erased_valid
    (issuer : LeaseIssuer) (lease : ComputeLease)
    (presented erased : ProvenanceRecord) (now : MonotonicTime)
    (remaining : Duration) (herased : presented.ErasedTo erased)
    (hvalid : issuer.validate lease erased now = .valid remaining) :
    (issuer.validate lease presented now = .valid remaining ↔
      ¬lease.origin.context.workload.HashContradicts
        presented.context.workload) ∧
    (lease.origin.context.workload.HashContradicts
        presented.context.workload →
      issuer.validate lease presented now = .executableMismatch) := by
  rcases validate_eq_valid_iff.mp hvalid with ⟨hvalidated, hremaining⟩
  have hrequest := hvalidated.request.trans herased.2
  have hprocess :=
    WorkloadIdentity.compareProcess_of_erased herased.1 hvalidated.process
  have hmismatch :
      lease.origin.context.workload.HashContradicts
          presented.context.workload →
        issuer.validate lease presented now = .executableMismatch := by
    intro hcontradicts
    exact validate_of_executable_different hvalidated.instanceId
      hvalidated.live hrequest hprocess hcontradicts.compareExecutable_eq
  refine ⟨⟨?_, ?_⟩, hmismatch⟩
  · intro hsame hcontradicts
    rw [hmismatch hcontradicts] at hsame
    contradiction
  · intro hconsistent
    have hexecutable : lease.origin.context.workload.compareExecutable
        presented.context.workload = .same := by
      apply (WorkloadIdentity.compareExecutable_of_erased herased.1
        hvalidated.executable).resolve_right
      exact hconsistent
    exact validate_eq_valid_iff.mpr
      ⟨{ hvalidated with
          request := hrequest
          process := hprocess
          executable := hexecutable }, hremaining⟩

end LeaseIssuer

/-! ## A service which swaps its binary in place -/

def serviceRecord (hash : Evidence String) : ProvenanceRecord where
  context :=
    { rootContext with workload :=
        { rootContext.workload with
          uid := .present 1000 .kernelObserved
          executablePath := .present "/usr/bin/service" .kernelObserved
          executableHash := hash } }
  request := sampleRequest

def boundHash : Evidence String := .present "sha256:a" .kernelObserved

def swappedHash : Evidence String := .present "sha256:b" .kernelObserved

def sampleIssuer : LeaseIssuer := .new ⟨"agent-1"⟩ (.fromNanos 60)

def serviceLease : ComputeLease where
  id := ⟨⟨"agent-1"⟩, 0⟩
  origin := serviceRecord boundHash
  policy := samplePolicy.provenance
  decisionReason := .explicitAllow {⟨"allow-slice"⟩}
  issuedAt := ⟨0⟩
  expiresAt := ⟨60⟩

def servingIssuer : LeaseIssuer := { sampleIssuer with nextSequence := 1 }

theorem serviceRecord_erasedTo (hash : Evidence String) (reason : String) :
    (serviceRecord hash).ErasedTo (serviceRecord (.missing reason)) := by
  refine ⟨?_, rfl⟩
  constructor <;>
    simp [serviceRecord, rootContext, Evidence.ErasedTo,
      Evidence.Unobserved]

theorem serviceLease_validate_of_erased :
    (servingIssuer.validate serviceLease (serviceRecord boundHash) ⟨20⟩ =
        .valid ⟨40, by decide⟩ ↔
      ¬serviceLease.origin.context.workload.HashContradicts
        (serviceRecord boundHash).context.workload) ∧
    (serviceLease.origin.context.workload.HashContradicts
        (serviceRecord boundHash).context.workload →
      servingIssuer.validate serviceLease (serviceRecord boundHash) ⟨20⟩ =
        .executableMismatch) :=
  servingIssuer.validate_of_erased_valid serviceLease _ _ _ _
    (serviceRecord_erasedTo boundHash "unreadable") (by decide)

/-- The swapped binary is a mismatch as long as its hash is seen; with the
hash hidden the unchanged path makes the lease valid. -/
theorem hidden_hash_can_rescue_lease :
    sampleIssuer.issue samplePolicy (serviceRecord boundHash) ⟨0⟩
        ⟨60, by decide⟩ = (servingIssuer, .returned (.ok serviceLease)) ∧
      (serviceRecord swappedHash).ErasedTo
        (serviceRecord (.missing "unreadable")) ∧
      (servingIssuer.validate serviceLease
        (serviceRecord (.missing "unreadable")) ⟨20⟩).isValid = true ∧
      ¬(servingIssuer.validate serviceLease (serviceRecord swappedHash)
        ⟨20⟩).isValid = true := by
  refine ⟨by decide, serviceRecord_erasedTo swappedHash _, ?_, ?_⟩ <;>
    decide

end Eltanin.Core
