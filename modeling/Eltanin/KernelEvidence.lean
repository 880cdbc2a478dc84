import Eltanin.PolicyEvidenceMonotonicity

/-!
# Policies over kernel evidence

The platform collectors only ever report what the kernel told them.  Over such
a context the trust floors of a policy decide nothing: a rule is matched when
each of its conditions was shown, and a request is allowed when a rule which
allows it is matched and every rule which denies it is contradicted.
-/

namespace Eltanin.Core

namespace Evidence

variable {α : Type}

def value : Evidence α → Option α
  | .present value _ => some value
  | .missing _ => none
  | .unsupported => none

/-- What is present has been read from the kernel. -/
def FromKernel (evidence : Evidence α) : Prop :=
  ∀ value source, evidence = .present value source → source = .kernelObserved

theorem fromKernel_present (value : α) :
    (Evidence.present value .kernelObserved).FromKernel := by
  intro _ _ heq
  cases heq
  rfl

theorem fromKernel_missing (reason : String) :
    (Evidence.missing reason : Evidence α).FromKernel := nofun

theorem value_eq_some_iff {evidence : Evidence α} {value : α}
    (hkernel : evidence.FromKernel) :
    evidence.value = some value ↔
      evidence = .present value .kernelObserved := by
  cases evidence with
  | present found source =>
      rw [hkernel found source rfl]
      simp [Evidence.value]
  | missing reason => simp [Evidence.value]
  | unsupported => simp [Evidence.value]

end Evidence

/-- Every field which a policy can look at comes from the kernel. -/
structure ExecutionContext.FromKernel (context : ExecutionContext) : Prop where
  uid : context.workload.uid.FromKernel
  gid : context.workload.gid.FromKernel
  executablePath : context.workload.executablePath.FromKernel
  executableHash : context.workload.executableHash.FromKernel
  cgroupPath : context.cgroupPath.FromKernel

/-! ## Conditions -/

section EvidenceMatch

variable {α : Type}

def EvidenceMatch.Shown (self : EvidenceMatch α) (evidence : Evidence α) :
    Prop :=
  evidence.value = some self.expected

def EvidenceMatch.Contradicted (self : EvidenceMatch α)
    (evidence : Evidence α) : Prop :=
  ∃ value, evidence.value = some value ∧ value ≠ self.expected

end EvidenceMatch

namespace Condition

/-- The field was observed, and is what the condition expects. -/
def Shown (self : Condition) (context : ExecutionContext) : Prop :=
  match self with
  | .uid m => m.Shown context.workload.uid
  | .gid m => m.Shown context.workload.gid
  | .executablePath m => m.Shown context.workload.executablePath
  | .executableHash m => m.Shown context.workload.executableHash
  | .cgroupPath m => m.Shown context.cgroupPath

/-- The field was observed, and is something else. -/
def Contradicted (self : Condition) (context : ExecutionContext) : Prop :=
  match self with
  | .uid m => m.Contradicted context.workload.uid
  | .gid m => m.Contradicted context.workload.gid
  | .executablePath m => m.Contradicted context.workload.executablePath
  | .executableHash m => m.Contradicted context.workload.executableHash
  | .cgroupPath m => m.Contradicted context.cgroupPath

end Condition

theorem TrustFloor.rank_le_kernelObserved (floor : TrustFloor) :
    floor.rank ≤ EvidenceSource.kernelObserved.rank := by
  cases floor <;> decide

section EvidenceMatch

variable {α : Type} {evidence : Evidence α} (m : EvidenceMatch α)

theorem EvidenceMatch.refutes_iff_contradicted
    (hkernel : evidence.FromKernel) :
    m.Refutes evidence ↔ m.Contradicted evidence := by
  have hrank := Nat.not_lt.mpr m.minTrust.rank_le_kernelObserved
  constructor
  · rintro ⟨value, source, rfl, hwrong⟩
    rw [hkernel value source rfl] at hwrong
    exact ⟨value, rfl, hwrong.resolve_right hrank⟩
  · rintro ⟨value, hvalue, hne⟩
    rw [Evidence.value_eq_some_iff hkernel] at hvalue
    exact ⟨value, _, hvalue, .inl hne⟩

theorem EvidenceMatch.shown_iff :
    m.Shown evidence ↔
      ¬m.Contradicted evidence ∧ ¬evidence.Unobserved := by
  cases evidence with
  | present value source =>
      simp [Shown, Contradicted, Evidence.Unobserved, Evidence.value]
  | missing reason =>
      simp [Shown, Evidence.Unobserved, Evidence.value]
  | unsupported => simp [Shown, Evidence.Unobserved, Evidence.value]

end EvidenceMatch

section Conditions

variable {context : ExecutionContext}

theorem Condition.refuted_iff_contradicted (hkernel : context.FromKernel)
    (condition : Condition) :
    condition.Refuted context ↔ condition.Contradicted context := by
  cases condition with
  | uid m => exact m.refutes_iff_contradicted hkernel.uid
  | gid m => exact m.refutes_iff_contradicted hkernel.gid
  | executablePath m =>
      exact m.refutes_iff_contradicted hkernel.executablePath
  | executableHash m =>
      exact m.refutes_iff_contradicted hkernel.executableHash
  | cgroupPath m => exact m.refutes_iff_contradicted hkernel.cgroupPath

theorem Condition.shown_iff (condition : Condition) :
    condition.Shown context ↔
      ¬condition.Contradicted context ∧ ¬condition.Unobserved context := by
  cases condition with
  | uid m => exact m.shown_iff
  | gid m => exact m.shown_iff
  | executablePath m => exact m.shown_iff
  | executableHash m => exact m.shown_iff
  | cgroupPath m => exact m.shown_iff

/-! ## Decisions -/

theorem Rule.matched_iff_shown (hkernel : context.FromKernel) (rule : Rule) :
    rule.Matched context ↔
      ∀ condition ∈ rule.conditions, condition.Shown context := by
  simp only [Matched, Indeterminate, Refuted, Condition.shown_iff,
    Condition.refuted_iff_contradicted hkernel]
  grind

theorem Rule.refuted_iff_contradicted (hkernel : context.FromKernel)
    (rule : Rule) :
    rule.Refuted context ↔
      ∃ condition ∈ rule.conditions, condition.Contradicted context := by
  simp only [Refuted, Condition.refuted_iff_contradicted hkernel]

/-- Over kernel evidence a request is allowed exactly when every condition of
some rule that allows it was shown, and each rule that denies it has a
condition which was contradicted. -/
theorem PolicySet.allow_iff_shown (policy : PolicySet)
    (request : ComputeRequest) (hkernel : context.FromKernel) :
    (policy.evaluate context request).effect = .allow ↔
      (∃ rule ∈ policy.document.rules, rule.effect = .allow ∧
        rule.Relevant request ∧
        ∀ condition ∈ rule.conditions, condition.Shown context) ∧
      ∀ rule ∈ policy.document.rules, rule.effect = .deny →
        rule.Relevant request →
        ∃ condition ∈ rule.conditions, condition.Contradicted context := by
  have hdeny : ∀ rule : Rule, ¬rule.effect = .allow ↔ rule.effect = .deny := by
    intro rule
    cases rule.effect <;> simp
  simp only [policy.evaluate_allow_iff_permitted,
    DenyOverrides.Permitted,
    Rule.verdict_eq_holds_iff, Rule.verdict_eq_refuted_iff,
    Rule.matched_iff_shown hkernel, Rule.refuted_iff_contradicted hkernel,
    hdeny]

end Conditions

end Eltanin.Core
