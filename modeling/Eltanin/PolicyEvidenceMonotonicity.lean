import Eltanin.PolicyDecisionSemantics

/-!
# Weaker evidence and the decision

A context can be weakened in two ways.  Erasing fields moves every verdict
down in the information order, and deny-overrides then never turns a refusal
into a permission.  Lowering trust sources moves verdicts down in the truth
order, which also refutes deny rules: present evidence below a floor is a
definitive mismatch by design.  The exact condition under which this lets an
allow rule through is the last theorem.
-/

namespace Eltanin.Core

open DenyOverrides

/-! ## Erasing and lowering -/

section Evidence

variable {α : Type}

def Evidence.ErasedTo (original erased : Evidence α) : Prop :=
  erased = original ∨ erased.Unobserved

def Evidence.LoweredTo (original lowered : Evidence α) : Prop :=
  lowered = original ∨
    ∃ value source weaker, original = .present value source ∧
      lowered = .present value weaker ∧ weaker.rank < source.rank

end Evidence

/-- How every evidence field of two contexts is related; what is not evidence
agrees. -/
structure ExecutionContext.Related
    (relation : ∀ {α : Type}, Evidence α → Evidence α → Prop)
    (context weaker : ExecutionContext) : Prop where
  pid : weaker.workload.pid = context.workload.pid
  processStart :
    relation context.workload.processStart weaker.workload.processStart
  uid : relation context.workload.uid weaker.workload.uid
  gid : relation context.workload.gid weaker.workload.gid
  executablePath :
    relation context.workload.executablePath
      weaker.workload.executablePath
  executableHash :
    relation context.workload.executableHash
      weaker.workload.executableHash
  ancestry :
    List.Forall₂
      (fun ancestor other : ProcessAncestor =>
        other.pid = ancestor.pid ∧ relation ancestor.start other.start ∧
          relation ancestor.executablePath other.executablePath)
      context.workload.ancestry weaker.workload.ancestry
  cgroupPath : relation context.cgroupPath weaker.cgroupPath
  namespaceHint : relation context.namespaceHint weaker.namespaceHint
  containerHint : relation context.containerHint weaker.containerHint
  sessionOrigin : relation context.sessionOrigin weaker.sessionOrigin

/-- Some evidence fields are replaced by missing or unsupported ones. -/
abbrev ExecutionContext.ErasedTo (context erased : ExecutionContext) :
    Prop :=
  context.Related Evidence.ErasedTo erased

/-- Some present fields keep their value and get a less trustworthy source. -/
abbrev ExecutionContext.LoweredTo (context lowered : ExecutionContext) :
    Prop :=
  context.Related Evidence.LoweredTo lowered

/-! ## Evaluation as a deny-overrides combination -/

theorem PolicySet.evaluate_allow_iff_permitted
    (policy : PolicySet) (context : ExecutionContext)
    (request : ComputeRequest) :
    (policy.evaluate context request).effect = .allow ↔
      Permitted policy.document.rules (fun rule => rule.effect = .allow)
        (Rule.verdict context request) := by
  have hdeny : ∀ rule : Rule, rule.effect = .deny ↔ ¬rule.effect = .allow := by
    intro rule
    cases rule.effect <;> simp
  have hempty : ∀ standing,
      ¬(policy.document.idsOf context request .deny standing).Nonempty ↔
        ∀ rule ∈ policy.document.rules, ¬rule.effect = .allow →
          rule.Relevant request → ¬standing rule context := by
    intro standing
    simp only [Finset.Nonempty, PolicyDocument.mem_idsOf, ← hdeny]
    grind
  rw [policy.evaluate_eq_documentedDecision]
  simp only [PolicyDocument.documentedDecision,
    PolicyDocument.documentedVerdict]
  constructor
  · intro hallow
    split at hallow
    · contradiction
    next hmatched =>
    split at hallow
    · contradiction
    next hindeterminate =>
    split at hallow
    next hsome =>
      rcases hsome with ⟨id, hid⟩
      obtain ⟨rule, hrule, _, hrelevant, heffect, hstanding⟩ :=
        (PolicyDocument.mem_idsOf _ _ _).mp hid
      refine ⟨⟨rule, hrule, heffect,
        Rule.verdict_eq_holds_iff.mpr ⟨hrelevant, hstanding⟩⟩, ?_⟩
      intro other hother hnot
      apply Rule.verdict_eq_refuted_iff.mpr
      intro hotherRelevant
      have hnotMatched :=
        (hempty _).mp hmatched other hother hnot hotherRelevant
      have hnotIndeterminate :=
        (hempty _).mp hindeterminate other hother hnot hotherRelevant
      by_contra hnotRefuted
      exact hnotMatched ⟨hnotRefuted, hnotIndeterminate⟩
    · contradiction
  · rintro ⟨⟨rule, hrule, heffect, hholds⟩, hforbids⟩
    have hverdict := Rule.verdict_eq_holds_iff.mp hholds
    have hrefuted : ∀ other ∈ policy.document.rules,
        ¬other.effect = .allow → other.Relevant request →
          other.Refuted context := by
      intro other hother hnot hrelevant
      exact Rule.verdict_eq_refuted_iff.mp
        (hforbids other hother hnot) hrelevant
    rw [if_neg, if_neg, if_pos]
    · exact ⟨rule.id, (PolicyDocument.mem_idsOf _ _ _).mpr
        ⟨rule, hrule, rfl, hverdict.1, heffect, hverdict.2⟩⟩
    · rw [hempty]
      intro other hother hnot hrelevant hindeterminate
      exact hindeterminate.1 (hrefuted other hother hnot hrelevant)
    · rw [hempty]
      intro other hother hnot hrelevant hmatched
      exact hmatched.1 (hrefuted other hother hnot hrelevant)

theorem PolicySet.evaluate_deny_iff_not_permitted
    (policy : PolicySet) (context : ExecutionContext)
    (request : ComputeRequest) :
    (policy.evaluate context request).effect = .deny ↔
      ¬Permitted policy.document.rules (fun rule => rule.effect = .allow)
        (Rule.verdict context request) := by
  rw [← policy.evaluate_allow_iff_permitted]
  cases (policy.evaluate context request).effect <;> simp

/-! ## Erased evidence -/

section Evidence

variable {α : Type} [DecidableEq α] {m : EvidenceMatch α}
  {original erased : Evidence α}

theorem EvidenceMatch.lessInformed_of_erasedTo
    (herased : original.ErasedTo erased) :
    (m.evaluate erased).toVerdict.LessInformed
      (m.evaluate original).toVerdict := by
  rcases herased with heq | hunobserved
  · rw [heq]
    exact Verdict.LessInformed.refl _
  · left
    rw [EvidenceMatch.evaluate_eq_indeterminate_iff.mpr hunobserved,
      ConditionOutcome.toVerdict]

end Evidence

theorem Condition.lessInformed_of_erasedTo
    {context erased : ExecutionContext} (herased : context.ErasedTo erased)
    (condition : Condition) :
    (condition.verdict erased).LessInformed (condition.verdict context) := by
  cases condition with
  | uid m => exact EvidenceMatch.lessInformed_of_erasedTo herased.uid
  | gid m => exact EvidenceMatch.lessInformed_of_erasedTo herased.gid
  | executablePath m =>
      exact EvidenceMatch.lessInformed_of_erasedTo herased.executablePath
  | executableHash m =>
      exact EvidenceMatch.lessInformed_of_erasedTo herased.executableHash
  | cgroupPath m =>
      exact EvidenceMatch.lessInformed_of_erasedTo herased.cgroupPath

theorem Rule.lessInformed_of_erasedTo
    {context erased : ExecutionContext} (herased : context.ErasedTo erased)
    (request : ComputeRequest) (rule : Rule) :
    (rule.verdict erased request).LessInformed
      (rule.verdict context request) := by
  by_cases hrelevant : rule.Relevant request
  · rw [Rule.verdict_of_relevant hrelevant,
      Rule.verdict_of_relevant hrelevant]
    exact conjunction_lessInformed
      (Condition.lessInformed_of_erasedTo herased) rule.conditions
  · rw [Rule.verdict_of_not_relevant hrelevant,
      Rule.verdict_of_not_relevant hrelevant]
    exact Verdict.LessInformed.refl _

/-- Evidence which goes missing never turns a refusal into a permission. -/
theorem PolicySet.deny_of_erased
    (policy : PolicySet) (request : ComputeRequest)
    (context erased : ExecutionContext)
    (herased : context.ErasedTo erased)
    (hdeny : (policy.evaluate context request).effect = .deny) :
    (policy.evaluate erased request).effect = .deny := by
  rw [policy.evaluate_deny_iff_not_permitted] at hdeny ⊢
  intro hpermitted
  apply hdeny
  apply hpermitted.of_lessInformed
  intro rule _
  exact Rule.lessInformed_of_erasedTo herased request rule

def rootContext : ExecutionContext where
  workload :=
    { pid := 7
      processStart := .present ⟨42⟩ .kernelObserved
      uid := .present 0 .kernelObserved
      gid := .unsupported
      executablePath := .unsupported
      executableHash := .unsupported
      ancestry := [] }
  cgroupPath := .present "user.slice" .bestEffort
  namespaceHint := .unsupported
  containerHint := .unsupported
  sessionOrigin := .unsupported

def rootContextWithUid (uid : Evidence UInt32) : ExecutionContext :=
  { rootContext with workload := { rootContext.workload with uid := uid } }

def sampleRequest : ComputeRequest := ⟨sampleResource, .compute⟩

theorem samplePolicy_deny_of_erased_uid :
    (samplePolicy.evaluate (rootContextWithUid (.missing "exited"))
      sampleRequest).effect = .deny := by
  refine samplePolicy.deny_of_erased sampleRequest rootContext _ ?_
    (by decide)
  constructor <;>
    simp [rootContext, rootContextWithUid, Evidence.ErasedTo,
      Evidence.Unobserved]

/-! ## Lowered sources -/

section Evidence

variable {α : Type}

/-- The observed value is the expected one; its source clears the floor
before, and no longer after. -/
def EvidenceMatch.Demoted (m : EvidenceMatch α)
    (original lowered : Evidence α) : Prop :=
  ∃ source weaker, original = .present m.expected source ∧
    m.minTrust.rank ≤ source.rank ∧
    lowered = .present m.expected weaker ∧
    weaker.rank < m.minTrust.rank

theorem EvidenceMatch.refutes_lowered_iff
    {m : EvidenceMatch α} {original lowered : Evidence α}
    (hlowered : original.LoweredTo lowered) :
    m.Refutes lowered ↔
      m.Refutes original ∨ m.Demoted original lowered := by
  rcases hlowered with rfl | ⟨value, source, weaker, rfl, rfl, hrank⟩
  · constructor
    · exact Or.inl
    · rintro (hrefutes | ⟨source, weaker, rfl, hfloor, hsame, hweaker⟩)
      · exact hrefutes
      · simp only [Evidence.present.injEq, true_and] at hsame
        subst hsame
        omega
  · simp only [Refutes, Demoted, Evidence.present.injEq]
    constructor
    · rintro ⟨_, _, ⟨rfl, rfl⟩, hne | hlt⟩
      · exact .inl ⟨value, source, ⟨rfl, rfl⟩, .inl hne⟩
      · by_cases hvalue : value = m.expected
        · by_cases hfloor : m.minTrust.rank ≤ source.rank
          · exact .inr ⟨source, weaker, ⟨hvalue, rfl⟩, hfloor,
              ⟨hvalue, rfl⟩, hlt⟩
          · exact .inl ⟨value, source, ⟨rfl, rfl⟩,
              .inr (not_le.mp hfloor)⟩
        · exact .inl ⟨value, source, ⟨rfl, rfl⟩, .inl hvalue⟩
    · rintro (⟨_, _, ⟨rfl, rfl⟩, hne | hlt⟩ |
        ⟨_, _, ⟨hvalue, rfl⟩, _, ⟨_, rfl⟩, hlt⟩)
      · exact ⟨value, weaker, ⟨rfl, rfl⟩, .inl hne⟩
      · exact ⟨value, weaker, ⟨rfl, rfl⟩, .inr (hrank.trans hlt)⟩
      · exact ⟨value, weaker, ⟨rfl, rfl⟩, .inr hlt⟩

theorem EvidenceMatch.unobserved_lowered_iff
    {original lowered : Evidence α}
    (hlowered : original.LoweredTo lowered) :
    lowered.Unobserved ↔ original.Unobserved := by
  rcases hlowered with rfl | ⟨value, source, weaker, rfl, rfl, _⟩
  · rfl
  · simp [Evidence.Unobserved]

end Evidence

def Condition.Demoted (condition : Condition)
    (context lowered : ExecutionContext) : Prop :=
  match condition with
  | .uid m => m.Demoted context.workload.uid lowered.workload.uid
  | .gid m => m.Demoted context.workload.gid lowered.workload.gid
  | .executablePath m =>
      m.Demoted context.workload.executablePath
        lowered.workload.executablePath
  | .executableHash m =>
      m.Demoted context.workload.executableHash
        lowered.workload.executableHash
  | .cgroupPath m => m.Demoted context.cgroupPath lowered.cgroupPath

section Lowered

variable {context lowered : ExecutionContext}

theorem Condition.refuted_lowered_iff
    (hlowered : context.LoweredTo lowered) (condition : Condition) :
    condition.Refuted lowered ↔
      condition.Refuted context ∨ condition.Demoted context lowered := by
  cases condition with
  | uid m => exact EvidenceMatch.refutes_lowered_iff hlowered.uid
  | gid m => exact EvidenceMatch.refutes_lowered_iff hlowered.gid
  | executablePath m =>
      exact EvidenceMatch.refutes_lowered_iff hlowered.executablePath
  | executableHash m =>
      exact EvidenceMatch.refutes_lowered_iff hlowered.executableHash
  | cgroupPath m =>
      exact EvidenceMatch.refutes_lowered_iff hlowered.cgroupPath

theorem Condition.unobserved_lowered_iff
    (hlowered : context.LoweredTo lowered) (condition : Condition) :
    condition.Unobserved lowered ↔ condition.Unobserved context := by
  cases condition with
  | uid m => exact EvidenceMatch.unobserved_lowered_iff hlowered.uid
  | gid m => exact EvidenceMatch.unobserved_lowered_iff hlowered.gid
  | executablePath m =>
      exact EvidenceMatch.unobserved_lowered_iff hlowered.executablePath
  | executableHash m =>
      exact EvidenceMatch.unobserved_lowered_iff hlowered.executableHash
  | cgroupPath m =>
      exact EvidenceMatch.unobserved_lowered_iff hlowered.cgroupPath

theorem Condition.lessTrue_of_loweredTo
    (hlowered : context.LoweredTo lowered) (condition : Condition) :
    (condition.verdict lowered).LessTrue (condition.verdict context) := by
  have hrefuted := refuted_lowered_iff hlowered condition
  have hunobserved := unobserved_lowered_iff hlowered condition
  rw [← verdict_eq_refuted_iff, ← verdict_eq_refuted_iff] at hrefuted
  rw [← verdict_eq_unknown_iff, ← verdict_eq_unknown_iff] at hunobserved
  cases hcontext : condition.verdict context with
  | refuted =>
      rw [hrefuted.mpr (.inl hcontext)]
      trivial
  | unknown =>
      rw [hunobserved.mpr hcontext]
      exact Verdict.LessTrue.refl _
  | holds =>
      cases hverdict : condition.verdict lowered with
      | refuted => trivial
      | unknown =>
          rw [hunobserved.mp hverdict] at hcontext
          contradiction
      | holds => rfl

theorem Rule.lessTrue_of_loweredTo
    (hlowered : context.LoweredTo lowered) (request : ComputeRequest)
    (rule : Rule) :
    (rule.verdict lowered request).LessTrue
      (rule.verdict context request) := by
  by_cases hrelevant : rule.Relevant request
  · rw [Rule.verdict_of_relevant hrelevant,
      Rule.verdict_of_relevant hrelevant]
    exact conjunction_lessTrue
      (Condition.lessTrue_of_loweredTo hlowered) rule.conditions
  · rw [Rule.verdict_of_not_relevant hrelevant,
      Rule.verdict_of_not_relevant hrelevant]
    exact Verdict.LessTrue.refl _

theorem Rule.refuted_lowered_iff
    (hlowered : context.LoweredTo lowered) {rule : Rule}
    (hnot : ¬rule.Refuted context) :
    rule.Refuted lowered ↔
      ∃ condition ∈ rule.conditions,
        condition.Demoted context lowered := by
  constructor
  · rintro ⟨condition, hcondition, hrefuted⟩
    rcases (Condition.refuted_lowered_iff hlowered condition).mp hrefuted
      with hbefore | hdemoted
    · exact (hnot ⟨condition, hcondition, hbefore⟩).elim
    · exact ⟨condition, hcondition, hdemoted⟩
  · rintro ⟨condition, hcondition, hdemoted⟩
    exact ⟨condition, hcondition,
      (Condition.refuted_lowered_iff hlowered condition).mpr
        (.inr hdemoted)⟩

end Lowered

/-- Every relevant deny rule which the context does not refute loses a
condition to a source which falls below its floor, while some relevant allow
rule is still matched. -/
def PolicyDocument.DeniesDemoted (document : PolicyDocument)
    (request : ComputeRequest) (context lowered : ExecutionContext) : Prop :=
  (∃ rule ∈ document.rules, rule.effect = .allow ∧
    rule.Relevant request ∧ rule.Matched lowered) ∧
  ∀ rule ∈ document.rules, rule.effect = .deny →
    rule.Relevant request → ¬rule.Refuted context →
      ∃ condition ∈ rule.conditions, condition.Demoted context lowered

/-- With less trustworthy sources a request is refused, and a refusal stays a
refusal, unless the deny rules behind it are demoted below their floors. -/
theorem PolicySet.deny_of_lowered_iff
    (policy : PolicySet) (request : ComputeRequest)
    (context lowered : ExecutionContext)
    (hlowered : context.LoweredTo lowered) :
    (policy.evaluate lowered request).effect = .deny ↔
      ¬policy.document.DeniesDemoted request context lowered := by
  rw [policy.evaluate_deny_iff_not_permitted,
    permitted_lowered_iff fun rule _ =>
      Rule.lessTrue_of_loweredTo hlowered request rule]
  apply not_congr
  simp only [Rule.verdict_eq_holds_iff, ne_eq, Rule.verdict_eq_refuted_iff]
  apply and_congr Iff.rfl
  apply forall₂_congr
  intro rule _
  constructor
  · intro hforbids heffect hrelevant hnot
    have hnotAllow : ¬rule.effect = .allow := by
      rw [heffect]
      decide
    apply (Rule.refuted_lowered_iff hlowered hnot).mp
    exact hforbids hnotAllow (fun himplies => hnot (himplies hrelevant))
      hrelevant
  · intro hforbids hnotAllow hnot hrelevant
    have heffect : rule.effect = .deny := by
      cases heffect : rule.effect with
      | allow => exact (hnotAllow heffect).elim
      | deny => rfl
    have hnotRefuted : ¬rule.Refuted context := fun hrefuted =>
      hnot fun _ => hrefuted
    exact (Rule.refuted_lowered_iff hlowered hnotRefuted).mpr
      (hforbids heffect hrelevant hnotRefuted)

theorem rootContext_loweredTo (weaker : EvidenceSource)
    (hweaker : weaker.rank < EvidenceSource.kernelObserved.rank) :
    rootContext.LoweredTo
      (rootContextWithUid (.present 0 weaker)) := by
  constructor <;>
    simp [rootContext, rootContextWithUid, Evidence.LoweredTo, hweaker]

theorem samplePolicy_deny_of_lowered_iff :
    (samplePolicy.evaluate
        (rootContextWithUid (.present 0 .selfAsserted))
        sampleRequest).effect = .deny ↔
      ¬samplePolicy.document.DeniesDemoted sampleRequest rootContext
        (rootContextWithUid (.present 0 .selfAsserted)) :=
  samplePolicy.deny_of_lowered_iff sampleRequest rootContext _
    (rootContext_loweredTo .selfAsserted (by decide))

/-- A kernel-observed root is denied; the same uid asserted by the process
itself is below the deny rule's floor, and the cgroup rule lets it through. -/
theorem lowered_source_can_lift_deny :
    ¬∀ (policy : PolicySet) (request : ComputeRequest)
        (context lowered : ExecutionContext),
      context.LoweredTo lowered →
        (policy.evaluate context request).effect = .deny →
          (policy.evaluate lowered request).effect = .deny := by
  intro hall
  have hdeny := hall samplePolicy sampleRequest rootContext
    (rootContextWithUid (.present 0 .selfAsserted))
    (rootContext_loweredTo .selfAsserted (by decide)) (by decide)
  have hallow : (samplePolicy.evaluate
      (rootContextWithUid (.present 0 .selfAsserted))
      sampleRequest).effect = .allow := by decide
  rw [hallow] at hdeny
  contradiction

end Eltanin.Core
