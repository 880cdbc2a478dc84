import Eltanin.ResourceModel

/-!
# Observed workload identity

Every observed field carries its own trust source, or says that nothing was
observed.  Two workloads are compared by process (pid and start token) and by
executable (hash first, path as the fallback); both comparisons have three
answers, because missing evidence is neither a match nor a mismatch.
-/

namespace Eltanin.Core

inductive EvidenceSource where
  | kernelObserved
  | bestEffort
  | selfAsserted
  deriving DecidableEq, Repr

inductive Evidence (α : Type) where
  | present (value : α) (source : EvidenceSource)
  | missing (reason : String)
  | unsupported
  deriving DecidableEq, Repr

structure ProcessStartToken where
  token : UInt64
  deriving DecidableEq, Repr

structure ProcessAncestor where
  pid : UInt32
  start : Evidence ProcessStartToken
  executablePath : Evidence String
  deriving DecidableEq, Repr

inductive IdentityComparison where
  | same
  | different
  | indeterminate
  deriving DecidableEq, Repr

structure WorkloadIdentity where
  pid : UInt32
  processStart : Evidence ProcessStartToken
  uid : Evidence UInt32
  gid : Evidence UInt32
  executablePath : Evidence String
  executableHash : Evidence String
  ancestry : List ProcessAncestor
  deriving DecidableEq, Repr

structure ExecutionContext where
  workload : WorkloadIdentity
  cgroupPath : Evidence String
  namespaceHint : Evidence String
  containerHint : Evidence String
  sessionOrigin : Evidence String
  deriving DecidableEq, Repr

structure ProvenanceRecord where
  context : ExecutionContext
  request : ComputeRequest
  deriving DecidableEq, Repr

namespace Evidence

variable {α : Type}

/-- The value of evidence which identity comparison may rely on: present and
not merely asserted by the workload itself. -/
def trusted? : Evidence α → Option α
  | .present _ .selfAsserted => none
  | .present value _ => some value
  | .missing _ => none
  | .unsupported => none

end Evidence

namespace WorkloadIdentity

def compareProcess (self other : WorkloadIdentity) : IdentityComparison :=
  match self.processStart, other.processStart with
  | .present a sourceA, .present b sourceB =>
      if sourceA ≠ .selfAsserted ∧ sourceB ≠ .selfAsserted then
        if self.pid = other.pid ∧ a = b then .same else .different
      else .indeterminate
  | _, _ => .indeterminate

def compareEvidence {α : Type} [DecidableEq α] (a b : Evidence α) :
    Option IdentityComparison :=
  match a, b with
  | .present x sourceX, .present y sourceY =>
      if sourceX ≠ .selfAsserted ∧ sourceY ≠ .selfAsserted then
        some (if x = y then .same else .different)
      else none
  | _, _ => none

/-- Strongest evidence first: a hash trusted on both sides decides alone. -/
def compareExecutable (self other : WorkloadIdentity) : IdentityComparison :=
  match compareEvidence self.executableHash other.executableHash with
  | some comparison => comparison
  | none =>
      match compareEvidence self.executablePath other.executablePath with
      | some comparison => comparison
      | none => .indeterminate

end WorkloadIdentity

/-! ## What a comparison relies on -/

namespace WorkloadIdentity

theorem compareProcess_eq_same_iff {self other : WorkloadIdentity} :
    self.compareProcess other = .same ↔
      self.pid = other.pid ∧
        ∃ token, self.processStart.trusted? = some token ∧
          other.processStart.trusted? = some token := by
  unfold compareProcess
  cases self.processStart with
  | missing reason => simp [Evidence.trusted?]
  | unsupported => simp [Evidence.trusted?]
  | present a sourceA =>
      cases other.processStart with
      | missing reason => simp [Evidence.trusted?]
      | unsupported => simp [Evidence.trusted?]
      | present b sourceB =>
          cases sourceA <;> cases sourceB <;>
            simp [Evidence.trusted?, eq_comm]

section CompareEvidence

variable {α : Type} [DecidableEq α] {a b : Evidence α}

theorem compareEvidence_eq_none_iff :
    compareEvidence a b = none ↔
      a.trusted? = none ∨ b.trusted? = none := by
  unfold compareEvidence
  cases a with
  | missing reason => simp [Evidence.trusted?]
  | unsupported => simp [Evidence.trusted?]
  | present x sourceX =>
      cases b with
      | missing reason => simp [Evidence.trusted?]
      | unsupported => simp [Evidence.trusted?]
      | present y sourceY =>
          cases sourceX <;> cases sourceY <;> simp [Evidence.trusted?]

theorem compareEvidence_eq_same_iff :
    compareEvidence a b = some .same ↔
      ∃ value, a.trusted? = some value ∧ b.trusted? = some value := by
  unfold compareEvidence
  cases a with
  | missing reason => simp [Evidence.trusted?]
  | unsupported => simp [Evidence.trusted?]
  | present x sourceX =>
      cases b with
      | missing reason => simp [Evidence.trusted?]
      | unsupported => simp [Evidence.trusted?]
      | present y sourceY =>
          cases sourceX <;> cases sourceY <;>
            simp [Evidence.trusted?, eq_comm]

theorem compareEvidence_of_trusted_ne {value other : α}
    (ha : a.trusted? = some value) (hb : b.trusted? = some other)
    (hne : value ≠ other) :
    compareEvidence a b = some .different := by
  have hpresent : compareEvidence a b ≠ none := by
    rw [ne_eq, compareEvidence_eq_none_iff, ha, hb]
    simp
  have hnotSame : compareEvidence a b ≠ some .same := by
    rw [ne_eq, compareEvidence_eq_same_iff, ha, hb]
    simpa [eq_comm] using hne
  unfold compareEvidence at hpresent hnotSame ⊢
  grind

end CompareEvidence

/-- Two workloads run the same executable when a hash trusted on both sides
agrees, or when no hash is trusted on both sides and a trusted path does. -/
theorem compareExecutable_eq_same_iff {self other : WorkloadIdentity} :
    self.compareExecutable other = .same ↔
      (∃ hash, self.executableHash.trusted? = some hash ∧
        other.executableHash.trusted? = some hash) ∨
      ((self.executableHash.trusted? = none ∨
          other.executableHash.trusted? = none) ∧
        ∃ path, self.executablePath.trusted? = some path ∧
          other.executablePath.trusted? = some path) := by
  unfold compareExecutable
  cases hhash : compareEvidence self.executableHash other.executableHash with
  | some comparison =>
      have hsame := compareEvidence_eq_same_iff
        (a := self.executableHash) (b := other.executableHash)
      have hnone := compareEvidence_eq_none_iff
        (a := self.executableHash) (b := other.executableHash)
      rw [hhash] at hsame hnone
      simp only [Option.some.injEq] at hsame
      simp only [reduceCtorEq, false_iff] at hnone
      simp [hsame, hnone]
  | none =>
      have hnone := compareEvidence_eq_none_iff.mp hhash
      have hdistinct : ¬∃ hash, self.executableHash.trusted? = some hash ∧
          other.executableHash.trusted? = some hash := by
        rintro ⟨hash, hself, hother⟩
        rw [hself, hother] at hnone
        simp at hnone
      simp only [hdistinct, hnone, false_or, true_and]
      rw [← compareEvidence_eq_same_iff]
      cases compareEvidence self.executablePath other.executablePath with
      | none => simp
      | some comparison => simp

/-- Hashes trusted on both sides decide alone, whatever the paths say. -/
theorem compareExecutable_of_hash_ne {self other : WorkloadIdentity}
    {hash otherHash : String}
    (hself : self.executableHash.trusted? = some hash)
    (hother : other.executableHash.trusted? = some otherHash)
    (hne : hash ≠ otherHash) :
    self.compareExecutable other = .different := by
  unfold compareExecutable
  rw [compareEvidence_of_trusted_ne hself hother hne]

/-- Compared with itself a workload is the same process exactly when its own
start token is trusted. -/
theorem compareProcess_self_iff (workload : WorkloadIdentity) :
    workload.compareProcess workload = .same ↔
      workload.processStart.trusted?.isSome := by
  rw [compareProcess_eq_same_iff, Option.isSome_iff_exists]
  simp

theorem compareExecutable_self_iff (workload : WorkloadIdentity) :
    workload.compareExecutable workload = .same ↔
      workload.executableHash.trusted?.isSome ∨
        workload.executablePath.trusted?.isSome := by
  rw [compareExecutable_eq_same_iff]
  cases hhash : workload.executableHash.trusted? with
  | some hash => simp
  | none => simp [Option.isSome_iff_exists]

end WorkloadIdentity

end Eltanin.Core
