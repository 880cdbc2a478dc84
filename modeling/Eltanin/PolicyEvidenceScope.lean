import Eltanin.PolicyDecisionSemantics

/-!
# What a decision reads from a context

A condition compares one of five observed fields, and a floor clears no
self-asserted value.  A decision is therefore a function of what is trusted in
these five fields, of which of them are self-asserted and of which are not
there at all: two contexts which agree on that are decided alike, whatever the
workload says about itself elsewhere.  Where nothing is trusted, no rule which
passed validation can match.
-/

namespace Eltanin.Core

/-- A policy cannot tell the two apart: the same evidence from the same source,
two self-asserted values, or nothing observed for whatever reason. -/
inductive Evidence.Alike {α : Type} : Evidence α → Evidence α → Prop
  | present (value : α) (source : EvidenceSource) :
      Alike (.present value source) (.present value source)
  | selfAsserted (value other : α) :
      Alike (.present value .selfAsserted) (.present other .selfAsserted)
  | unobserved {first second : Evidence α} (hfirst : first.Unobserved)
      (hsecond : second.Unobserved) : Alike first second

/-- The five fields which conditions compare are alike; nothing is said about
the pid, the start token, the ancestry and the hints. -/
structure ExecutionContext.Alike (first second : ExecutionContext) :
    Prop where
  uid : first.workload.uid.Alike second.workload.uid
  gid : first.workload.gid.Alike second.workload.gid
  executablePath :
    first.workload.executablePath.Alike second.workload.executablePath
  executableHash :
    first.workload.executableHash.Alike second.workload.executableHash
  cgroupPath : first.cgroupPath.Alike second.cgroupPath

/-- None of the five fields is present with a source better than the
workload's own word. -/
structure ExecutionContext.NothingTrusted (context : ExecutionContext) :
    Prop where
  uid : context.workload.uid.trusted? = none
  gid : context.workload.gid.trusted? = none
  executablePath : context.workload.executablePath.trusted? = none
  executableHash : context.workload.executableHash.trusted? = none
  cgroupPath : context.cgroupPath.trusted? = none

/-! ## Alike contexts -/

section Evidence

variable {α : Type} [DecidableEq α] {first second evidence : Evidence α}

theorem EvidenceMatch.evaluate_selfAsserted (m : EvidenceMatch α)
    (value : α) :
    m.evaluate (.present value .selfAsserted) = .notMatched := by
  have hfloor : m.minTrust.admits .selfAsserted = false := by
    cases m.minTrust <;> rfl
  simp [evaluate, hfloor]

theorem EvidenceMatch.evaluate_eq_of_alike (m : EvidenceMatch α)
    (halike : first.Alike second) :
    m.evaluate first = m.evaluate second := by
  cases halike with
  | present value source => rfl
  | selfAsserted value other =>
      rw [m.evaluate_selfAsserted, m.evaluate_selfAsserted]
  | unobserved hfirst hsecond =>
      rw [evaluate_eq_indeterminate_iff.mpr hfirst,
        evaluate_eq_indeterminate_iff.mpr hsecond]

theorem EvidenceMatch.evaluate_ne_matched (m : EvidenceMatch α)
    (huntrusted : evidence.trusted? = none) :
    m.evaluate evidence ≠ .matched := by
  cases evidence with
  | present value source =>
      cases source with
      | selfAsserted => simp [m.evaluate_selfAsserted]
      | kernelObserved => simp [Evidence.trusted?] at huntrusted
      | bestEffort => simp [Evidence.trusted?] at huntrusted
  | missing reason => simp [evaluate]
  | unsupported => simp [evaluate]

end Evidence

section Alike

variable {first second : ExecutionContext}

theorem Condition.evaluate_eq_of_alike (halike : first.Alike second)
    (condition : Condition) :
    condition.evaluate first = condition.evaluate second := by
  cases condition with
  | uid m => exact m.evaluate_eq_of_alike halike.uid
  | gid m => exact m.evaluate_eq_of_alike halike.gid
  | executablePath m => exact m.evaluate_eq_of_alike halike.executablePath
  | executableHash m => exact m.evaluate_eq_of_alike halike.executableHash
  | cgroupPath m => exact m.evaluate_eq_of_alike halike.cgroupPath

theorem Rule.evaluateConditions_eq_of_alike (halike : first.Alike second)
    (anyIndeterminate : Bool) (conditions : List Condition) :
    evaluateConditions first anyIndeterminate conditions =
      evaluateConditions second anyIndeterminate conditions := by
  induction conditions generalizing anyIndeterminate with
  | nil => rfl
  | cons condition rest ih =>
      unfold evaluateConditions
      rw [Condition.evaluate_eq_of_alike halike condition]
      cases condition.evaluate second with
      | notMatched => rfl
      | indeterminate => exact ih true
      | matched => exact ih anyIndeterminate

theorem Rule.evaluate_eq_of_alike (halike : first.Alike second)
    (request : ComputeRequest) (rule : Rule) :
    rule.evaluate first request = rule.evaluate second request := by
  unfold evaluate
  rw [evaluateConditions_eq_of_alike halike]

theorem PolicySet.collectHits_eq_of_alike (halike : first.Alike second)
    (request : ComputeRequest) (hits : Hits) (rules : List Rule) :
    collectHits first request hits rules =
      collectHits second request hits rules := by
  induction rules generalizing hits with
  | nil => rfl
  | cons rule rest ih =>
      rw [collectHits, collectHits, Rule.evaluate_eq_of_alike halike]
      exact ih _

/-- What a workload says about itself does not influence the decision: its
effect, its reason and its provenance are the same in alike contexts. -/
theorem PolicySet.decision_eq_of_alike (policy : PolicySet)
    (request : ComputeRequest) (halike : first.Alike second) :
    policy.evaluate first request = policy.evaluate second request := by
  unfold evaluate
  rw [collectHits_eq_of_alike halike]

end Alike

/-- A workload of the slice which `samplePolicy` allows. -/
def sliceContext : ExecutionContext where
  workload :=
    { pid := 41
      processStart := .present ⟨7⟩ .kernelObserved
      uid := .present 1000 .kernelObserved
      gid := .present 100 .selfAsserted
      executablePath := .missing "readlink"
      executableHash := .unsupported
      ancestry := [] }
  cgroupPath := .present "user.slice" .kernelObserved
  namespaceHint := .unsupported
  containerHint := .unsupported
  sessionOrigin := .unsupported

/-- The same workload, with other claims about itself. -/
def boastingContext : ExecutionContext where
  workload :=
    { pid := 1
      processStart := .unsupported
      uid := .present 1000 .kernelObserved
      gid := .present 0 .selfAsserted
      executablePath := .unsupported
      executableHash := .missing "too large"
      ancestry := [⟨1, .unsupported, .present "/sbin/init" .selfAsserted⟩] }
  cgroupPath := .present "user.slice" .kernelObserved
  namespaceHint := .present "host" .selfAsserted
  containerHint := .present "trusted" .selfAsserted
  sessionOrigin := .present "console" .selfAsserted

theorem sliceContext_decision_eq :
    samplePolicy.evaluate sliceContext ⟨sampleResource, .compute⟩ =
      samplePolicy.evaluate boastingContext ⟨sampleResource, .compute⟩ :=
  samplePolicy.decision_eq_of_alike ⟨sampleResource, .compute⟩
    { uid := .present 1000 .kernelObserved
      gid := .selfAsserted 100 0
      executablePath := .unobserved (.inl ⟨"readlink", rfl⟩) (.inr rfl)
      executableHash := .unobserved (.inr rfl) (.inl ⟨"too large", rfl⟩)
      cgroupPath := .present "user.slice" .kernelObserved }

/-! ## Nothing trusted, nothing allowed -/

theorem Condition.evaluate_ne_matched {context : ExecutionContext}
    (hnothing : context.NothingTrusted) (condition : Condition) :
    condition.evaluate context ≠ .matched := by
  cases condition with
  | uid m => exact m.evaluate_ne_matched hnothing.uid
  | gid m => exact m.evaluate_ne_matched hnothing.gid
  | executablePath m => exact m.evaluate_ne_matched hnothing.executablePath
  | executableHash m => exact m.evaluate_ne_matched hnothing.executableHash
  | cgroupPath m => exact m.evaluate_ne_matched hnothing.cgroupPath

/-- An accepted rule has a condition, and in such a context the condition does
not hold. -/
theorem Rule.not_matched_of_nothingTrusted {rule : Rule}
    {context : ExecutionContext} (hwell : rule.WellFormed)
    (hnothing : context.NothingTrusted) : ¬rule.Matched context := by
  rintro ⟨hnotRefuted, hnotIndeterminate⟩
  rcases List.exists_mem_of_ne_nil _ hwell.hasCondition with
    ⟨condition, hmem⟩
  cases houtcome : condition.evaluate context with
  | matched => exact Condition.evaluate_ne_matched hnothing _ houtcome
  | notMatched =>
      exact hnotRefuted ⟨condition, hmem,
        Condition.evaluate_eq_notMatched_iff.mp houtcome⟩
  | indeterminate =>
      exact hnotIndeterminate ⟨hnotRefuted, condition, hmem,
        Condition.evaluate_eq_indeterminate_iff.mp houtcome⟩

theorem PolicyDocument.idsOf_eq_empty {document : PolicyDocument}
    {context : ExecutionContext} {request : ComputeRequest} {effect : Effect}
    {standing : Rule → ExecutionContext → Prop}
    (hnone : ∀ rule ∈ document.rules, rule.Relevant request →
      ¬standing rule context) :
    document.idsOf context request effect standing = ∅ := by
  apply Finset.eq_empty_of_forall_notMem
  intro id hid
  rcases (mem_idsOf _ _ _).mp hid with
    ⟨rule, hrule, _, hrelevant, _, hstanding⟩
  exact hnone rule hrule hrelevant hstanding

namespace PolicySet

variable {policy : PolicySet} {context : ExecutionContext}
  {request : ComputeRequest}

theorem deny_of_nothingTrusted (policy : PolicySet)
    (request : ComputeRequest) (hnothing : context.NothingTrusted) :
    (policy.evaluate context request).effect = .deny := by
  have hallow :
      policy.document.idsOf context request .allow Rule.Matched = ∅ :=
    PolicyDocument.idsOf_eq_empty fun rule hrule _ =>
      Rule.not_matched_of_nothingTrusted
        (policy.wellFormed.rulesWellFormed rule hrule) hnothing
  rw [policy.evaluate_eq_documentedDecision]
  simp only [PolicyDocument.documentedDecision,
    PolicyDocument.documentedVerdict, hallow, Finset.not_nonempty_empty,
    if_false]
  split
  · rfl
  split <;> rfl

/-- No accepted rule names the catch-all action, so that no rule is about such
a request. -/
theorem noMatchingRule_of_unknown (policy : PolicySet)
    (context : ExecutionContext) (hunknown : request.action = .unknown) :
    (policy.evaluate context request).effect = .deny ∧
      (policy.evaluate context request).reason = .noMatchingRule := by
  have hempty : ∀ effect standing,
      policy.document.idsOf context request effect standing = ∅ := by
    intro effect standing
    apply PolicyDocument.idsOf_eq_empty
    intro rule hrule hrelevant
    have hknown :=
      (policy.wellFormed.rulesWellFormed rule hrule).actionKnown
    exact (hknown (hrelevant.2.trans hunknown)).elim
  rw [policy.evaluate_eq_documentedDecision]
  simp [PolicyDocument.documentedDecision, PolicyDocument.documentedVerdict,
    hempty]

end PolicySet

end Eltanin.Core
