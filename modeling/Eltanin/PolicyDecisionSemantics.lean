import Eltanin.PolicyValidation
import Eltanin.DenyOverrides
import Mathlib.Data.Finset.Dedup

/-!
# The documented meaning of a policy

Evaluation accumulates three sets of rule ids while it walks through the
rules.  This file states what the documentation promises instead: when a rule
is relevant, refuted, indeterminate or matched, and how the matched and
indeterminate rules combine.  The statement mentions no loop, no accumulator
and no order, so agreement with it makes evaluation independent of the order
of rules and of conditions.
-/

namespace Eltanin.Core

open DenyOverrides

/-! ## Specification -/

def EvidenceSource.rank : EvidenceSource → ℕ
  | .selfAsserted => 0
  | .bestEffort => 1
  | .kernelObserved => 2

def TrustFloor.rank : TrustFloor → ℕ
  | .bestEffort => 1
  | .kernelObserved => 2

section EvidenceMatch

variable {α : Type}

def EvidenceMatch.Refutes (self : EvidenceMatch α)
    (evidence : Evidence α) : Prop :=
  ∃ value source, evidence = .present value source ∧
    (value ≠ self.expected ∨ source.rank < self.minTrust.rank)

def Evidence.Unobserved (evidence : Evidence α) : Prop :=
  (∃ reason, evidence = .missing reason) ∨ evidence = .unsupported

end EvidenceMatch

def Condition.Refuted (self : Condition) (context : ExecutionContext) :
    Prop :=
  match self with
  | .uid m => m.Refutes context.workload.uid
  | .gid m => m.Refutes context.workload.gid
  | .executablePath m => m.Refutes context.workload.executablePath
  | .executableHash m => m.Refutes context.workload.executableHash
  | .cgroupPath m => m.Refutes context.cgroupPath

def Condition.Unobserved (self : Condition) (context : ExecutionContext) :
    Prop :=
  match self with
  | .uid _ => context.workload.uid.Unobserved
  | .gid _ => context.workload.gid.Unobserved
  | .executablePath _ => context.workload.executablePath.Unobserved
  | .executableHash _ => context.workload.executableHash.Unobserved
  | .cgroupPath _ => context.cgroupPath.Unobserved

def Rule.Relevant (rule : Rule) (request : ComputeRequest) : Prop :=
  rule.resource = request.resource ∧ rule.action = request.action

instance (rule : Rule) (request : ComputeRequest) :
    Decidable (rule.Relevant request) :=
  inferInstanceAs (Decidable (_ ∧ _))

def Rule.Refuted (rule : Rule) (context : ExecutionContext) : Prop :=
  ∃ condition ∈ rule.conditions, condition.Refuted context

def Rule.Indeterminate (rule : Rule) (context : ExecutionContext) : Prop :=
  ¬rule.Refuted context ∧
    ∃ condition ∈ rule.conditions, condition.Unobserved context

def Rule.Matched (rule : Rule) (context : ExecutionContext) : Prop :=
  ¬rule.Refuted context ∧ ¬rule.Indeterminate context

section Documented

open Classical

variable (document : PolicyDocument) (context : ExecutionContext)
  (request : ComputeRequest)

/-- The ids of the relevant rules of one effect which the context puts into a
given standing. -/
noncomputable def PolicyDocument.idsOf
    (effect : Effect) (standing : Rule → ExecutionContext → Prop) :
    Finset RuleId :=
  ((document.rules.filter fun rule =>
    rule.Relevant request ∧ rule.effect = effect ∧
      standing rule context).map Rule.id).toFinset

noncomputable def PolicyDocument.documentedVerdict :
    Effect × DecisionReason :=
  let matchedDeny := document.idsOf context request .deny Rule.Matched
  let matchedAllow := document.idsOf context request .allow Rule.Matched
  let indeterminateDeny :=
    document.idsOf context request .deny Rule.Indeterminate
  if matchedDeny.Nonempty then
    (.deny, .explicitDeny matchedDeny matchedAllow)
  else if indeterminateDeny.Nonempty then
    (.deny, .indeterminateEvidence indeterminateDeny)
  else if matchedAllow.Nonempty then
    (.allow, .explicitAllow matchedAllow)
  else (.deny, .noMatchingRule)

noncomputable def PolicyDocument.documentedDecision : PolicyDecision where
  effect := (document.documentedVerdict context request).1
  reason := (document.documentedVerdict context request).2
  policy := ⟨document.id, document.revision, domainSchemaVersion⟩

theorem PolicyDocument.mem_idsOf
    {effect : Effect} {standing : Rule → ExecutionContext → Prop}
    {id : RuleId} :
    id ∈ document.idsOf context request effect standing ↔
      ∃ rule ∈ document.rules, rule.id = id ∧ rule.Relevant request ∧
        rule.effect = effect ∧ standing rule context := by
  unfold idsOf
  rw [List.mem_toFinset]
  simp only [List.mem_map, List.mem_filter, decide_eq_true_eq]
  constructor
  · rintro ⟨rule, ⟨hmem, hstanding⟩, hid⟩
    exact ⟨rule, hmem, hid, hstanding⟩
  · rintro ⟨rule, hmem, hid, hstanding⟩
    exact ⟨rule, ⟨hmem, hstanding⟩, hid⟩

end Documented

/-! ## One condition -/

theorem TrustFloor.admits_eq_true_iff
    {floor : TrustFloor} {source : EvidenceSource} :
    floor.admits source = true ↔ floor.rank ≤ source.rank := by
  cases floor <;> cases source <;>
    simp [admits, rank, EvidenceSource.rank]

def ConditionOutcome.toVerdict : ConditionOutcome → Verdict
  | .matched => .holds
  | .notMatched => .refuted
  | .indeterminate => .unknown

section EvidenceMatch

variable {α : Type} [DecidableEq α] {m : EvidenceMatch α}
  {evidence : Evidence α}

theorem EvidenceMatch.evaluate_eq_notMatched_iff :
    m.evaluate evidence = .notMatched ↔ m.Refutes evidence := by
  cases evidence with
  | present value source =>
      simp only [evaluate, Refutes, Evidence.present.injEq,
        TrustFloor.admits_eq_true_iff]
      constructor
      · intro houtcome
        split at houtcome
        · contradiction
        next hfails =>
          refine ⟨value, source, ⟨rfl, rfl⟩, ?_⟩
          by_cases hvalue : value = m.expected
          · right
            by_contra hrank
            exact hfails ⟨hvalue, not_lt.mp hrank⟩
          · exact .inl hvalue
      · rintro ⟨_, _, ⟨rfl, rfl⟩, hfails⟩
        rw [if_neg]
        rintro ⟨hvalue, hrank⟩
        rcases hfails with hne | hlt
        · exact hne hvalue
        · omega
  | missing reason => simp [evaluate, Refutes]
  | unsupported => simp [evaluate, Refutes]

theorem EvidenceMatch.evaluate_eq_indeterminate_iff :
    m.evaluate evidence = .indeterminate ↔ evidence.Unobserved := by
  cases evidence with
  | present value source =>
      simp only [evaluate, Evidence.Unobserved]
      split <;> simp
  | missing reason => simp [evaluate, Evidence.Unobserved]
  | unsupported => simp [evaluate, Evidence.Unobserved]

end EvidenceMatch

theorem Condition.evaluate_eq_notMatched_iff
    {condition : Condition} {context : ExecutionContext} :
    condition.evaluate context = .notMatched ↔
      condition.Refuted context := by
  cases condition <;> exact EvidenceMatch.evaluate_eq_notMatched_iff

theorem Condition.evaluate_eq_indeterminate_iff
    {condition : Condition} {context : ExecutionContext} :
    condition.evaluate context = .indeterminate ↔
      condition.Unobserved context := by
  cases condition <;> exact EvidenceMatch.evaluate_eq_indeterminate_iff

def Condition.verdict (context : ExecutionContext)
    (condition : Condition) : Verdict :=
  (condition.evaluate context).toVerdict

theorem Condition.verdict_eq_refuted_iff
    {condition : Condition} {context : ExecutionContext} :
    condition.verdict context = .refuted ↔ condition.Refuted context := by
  rw [← evaluate_eq_notMatched_iff, verdict]
  cases condition.evaluate context <;> simp [ConditionOutcome.toVerdict]

theorem Condition.verdict_eq_unknown_iff
    {condition : Condition} {context : ExecutionContext} :
    condition.verdict context = .unknown ↔
      condition.Unobserved context := by
  rw [← evaluate_eq_indeterminate_iff, verdict]
  cases condition.evaluate context <;> simp [ConditionOutcome.toVerdict]

/-! ## One rule -/

/-- The loop with its early exit computes the Kleene conjunction; the flag
stands for an indeterminate condition already passed. -/
theorem Rule.evaluateConditions_toVerdict
    (context : ExecutionContext) (anyIndeterminate : Bool)
    (conditions : List Condition) :
    (evaluateConditions context anyIndeterminate conditions).toVerdict =
      conjunction ((if anyIndeterminate then [.unknown] else []) ++
        conditions.map (Condition.verdict context)) := by
  induction conditions generalizing anyIndeterminate with
  | nil => cases anyIndeterminate <;> rfl
  | cons condition rest ih =>
      unfold evaluateConditions
      rw [List.map_cons]
      cases houtcome : condition.evaluate context with
      | notMatched =>
          have hverdict : condition.verdict context = .refuted := by
            rw [Condition.verdict, houtcome, ConditionOutcome.toVerdict]
          rw [hverdict]
          symm
          apply conjunction_eq_refuted_iff.mpr
          simp
      | indeterminate =>
          have hverdict : condition.verdict context = .unknown := by
            rw [Condition.verdict, houtcome, ConditionOutcome.toVerdict]
          rw [hverdict]
          change (evaluateConditions context true rest).toVerdict = _
          rw [ih true]
          cases anyIndeterminate <;> simp [conjunction]
      | matched =>
          have hverdict : condition.verdict context = .holds := by
            rw [Condition.verdict, houtcome, ConditionOutcome.toVerdict]
          rw [hverdict]
          change (evaluateConditions context anyIndeterminate rest).toVerdict
            = _
          rw [ih anyIndeterminate]
          cases anyIndeterminate <;> simp [conjunction]

/-- The verdict of a rule on a request; a rule about another request is
refuted. -/
def Rule.verdict (context : ExecutionContext) (request : ComputeRequest)
    (rule : Rule) : Verdict :=
  match rule.evaluate context request with
  | none => .refuted
  | some outcome => outcome.toVerdict

theorem Rule.verdict_of_relevant
    {rule : Rule} {context : ExecutionContext} {request : ComputeRequest}
    (hrelevant : rule.Relevant request) :
    rule.verdict context request =
      conjunction (rule.conditions.map (Condition.verdict context)) := by
  have hguard : ¬(rule.resource ≠ request.resource ∨
      rule.action ≠ request.action) := by
    simp [hrelevant.1, hrelevant.2]
  simp only [verdict, evaluate, if_neg hguard]
  simpa using evaluateConditions_toVerdict context false rule.conditions

theorem Rule.verdict_of_not_relevant
    {rule : Rule} {context : ExecutionContext} {request : ComputeRequest}
    (hirrelevant : ¬rule.Relevant request) :
    rule.verdict context request = .refuted := by
  have hguard : rule.resource ≠ request.resource ∨
      rule.action ≠ request.action := by
    by_contra hsame
    simp only [not_or, ne_eq, not_not] at hsame
    exact hirrelevant hsame
  simp only [verdict, evaluate, if_pos hguard]

theorem Rule.conjunction_eq_refuted_iff_refuted
    {rule : Rule} {context : ExecutionContext} :
    conjunction (rule.conditions.map (Condition.verdict context)) =
      .refuted ↔ rule.Refuted context := by
  rw [conjunction_eq_refuted_iff]
  simp [Refuted, Condition.verdict_eq_refuted_iff]

theorem Rule.conjunction_eq_unknown_iff_indeterminate
    {rule : Rule} {context : ExecutionContext} :
    conjunction (rule.conditions.map (Condition.verdict context)) =
      .unknown ↔ rule.Indeterminate context := by
  rw [conjunction_eq_unknown_iff, ← conjunction_eq_refuted_iff,
    conjunction_eq_refuted_iff_refuted]
  simp [Indeterminate, Condition.verdict_eq_unknown_iff]

theorem Rule.verdict_eq_holds_iff
    {rule : Rule} {context : ExecutionContext} {request : ComputeRequest} :
    rule.verdict context request = .holds ↔
      rule.Relevant request ∧ rule.Matched context := by
  by_cases hrelevant : rule.Relevant request
  · rw [verdict_of_relevant hrelevant, Matched,
      ← conjunction_eq_refuted_iff_refuted,
      ← conjunction_eq_unknown_iff_indeterminate]
    cases conjunction (rule.conditions.map (Condition.verdict context)) <;>
      simp [hrelevant]
  · simp [verdict_of_not_relevant hrelevant, hrelevant]

theorem Rule.verdict_eq_unknown_iff
    {rule : Rule} {context : ExecutionContext} {request : ComputeRequest} :
    rule.verdict context request = .unknown ↔
      rule.Relevant request ∧ rule.Indeterminate context := by
  by_cases hrelevant : rule.Relevant request
  · rw [verdict_of_relevant hrelevant,
      conjunction_eq_unknown_iff_indeterminate]
    simp [hrelevant]
  · simp [verdict_of_not_relevant hrelevant, hrelevant]

theorem Rule.verdict_eq_refuted_iff
    {rule : Rule} {context : ExecutionContext} {request : ComputeRequest} :
    rule.verdict context request = .refuted ↔
      (rule.Relevant request → rule.Refuted context) := by
  by_cases hrelevant : rule.Relevant request
  · rw [verdict_of_relevant hrelevant, conjunction_eq_refuted_iff_refuted]
    simp [hrelevant]
  · simp [verdict_of_not_relevant hrelevant, hrelevant]

/-! ## All rules -/

namespace PolicySet

variable {context : ExecutionContext} {request : ComputeRequest}

/-- The three sets of ids which the loop over the rules accumulates. -/
inductive HitSet where
  | allow
  | deny
  | indeterminateDeny

namespace HitSet

/-- The effect and the verdict of the rules whose ids are in the set. -/
def effect : HitSet → Effect
  | .allow => .allow
  | .deny => .deny
  | .indeterminateDeny => .deny

def verdict : HitSet → Verdict
  | .allow => .holds
  | .deny => .holds
  | .indeterminateDeny => .unknown

def ids (hits : Hits) : HitSet → Finset RuleId
  | .allow => hits.allowHits
  | .deny => hits.denyHits
  | .indeterminateDeny => hits.indeterminateDenyHits

theorem mem_ids_record (set : HitSet) (hits : Hits) (rule : Rule)
    (id : RuleId) :
    id ∈ set.ids (hits.record rule (rule.evaluate context request)) ↔
      id ∈ set.ids hits ∨
        (rule.id = id ∧ rule.effect = set.effect ∧
          rule.verdict context request = set.verdict) := by
  unfold Rule.verdict Hits.record
  cases rule.evaluate context request with
  | none => cases set <;> simp [ids, effect, verdict]
  | some outcome =>
      cases outcome <;> cases set <;> cases rule.effect <;>
        simp [ids, effect, verdict, ConditionOutcome.toVerdict, or_comm,
          eq_comm]

/-- Every rule which contributes to a set does so exactly once. -/
theorem mem_ids_collectHits (set : HitSet) (hits : Hits) (rules : List Rule)
    (id : RuleId) :
    id ∈ set.ids (collectHits context request hits rules) ↔
      id ∈ set.ids hits ∨
        ∃ rule ∈ rules, rule.id = id ∧ rule.effect = set.effect ∧
          rule.verdict context request = set.verdict := by
  induction rules generalizing hits with
  | nil => simp [collectHits]
  | cons rule rest ih =>
      rw [collectHits, ih, mem_ids_record]
      simp only [List.mem_cons, exists_eq_or_imp, or_assoc]

theorem ids_collectHits (set : HitSet) (document : PolicyDocument)
    {standing : Rule → ExecutionContext → Prop}
    (hstanding : ∀ rule : Rule, rule.verdict context request = set.verdict ↔
      rule.Relevant request ∧ standing rule context) :
    set.ids (collectHits context request Hits.empty document.rules) =
      document.idsOf context request set.effect standing := by
  have hempty : set.ids Hits.empty = ∅ := by cases set <;> rfl
  ext id
  rw [mem_ids_collectHits, hempty, PolicyDocument.mem_idsOf]
  simp only [Finset.notMem_empty, false_or, hstanding, and_left_comm]

end HitSet

/-- The accumulators of `evaluate` hold exactly the documented ids. -/
theorem collectHits_eq_documented (document : PolicyDocument) :
    collectHits context request Hits.empty document.rules =
      { allowHits := document.idsOf context request .allow Rule.Matched
        denyHits := document.idsOf context request .deny Rule.Matched
        indeterminateDenyHits :=
          document.idsOf context request .deny Rule.Indeterminate } := by
  have hallow : (collectHits context request Hits.empty
      document.rules).allowHits =
        document.idsOf context request .allow Rule.Matched :=
    HitSet.allow.ids_collectHits document
      fun _ => Rule.verdict_eq_holds_iff
  have hdeny : (collectHits context request Hits.empty
      document.rules).denyHits =
        document.idsOf context request .deny Rule.Matched :=
    HitSet.deny.ids_collectHits document
      fun _ => Rule.verdict_eq_holds_iff
  have hindeterminate : (collectHits context request Hits.empty
      document.rules).indeterminateDenyHits =
        document.idsOf context request .deny Rule.Indeterminate :=
    HitSet.indeterminateDeny.ids_collectHits document
      fun _ => Rule.verdict_eq_unknown_iff
  rw [← hallow, ← hdeny, ← hindeterminate]

theorem evaluate_eq_documentedDecision
    (policy : PolicySet) (context : ExecutionContext)
    (request : ComputeRequest) :
    policy.evaluate context request =
      policy.document.documentedDecision context request := by
  unfold evaluate PolicyDocument.documentedDecision
    PolicyDocument.documentedVerdict provenance
  rw [collectHits_eq_documented]
  simp only [Hits.verdict, Finset.nonempty_iff_ne_empty]

end PolicySet

/-! ## Independence of the authored order -/

theorem Rule.Reordered.relevant_iff
    {rule reordered : Rule} (hreordered : rule.Reordered reordered)
    {request : ComputeRequest} :
    reordered.Relevant request ↔ rule.Relevant request := by
  simp [Rule.Relevant, hreordered.resource, hreordered.action]

theorem Rule.Reordered.refuted_iff
    {rule reordered : Rule} (hreordered : rule.Reordered reordered)
    (context : ExecutionContext) :
    reordered.Refuted context ↔ rule.Refuted context := by
  simp [Rule.Refuted, hreordered.conditions.mem_iff]

theorem Rule.Reordered.indeterminate_iff
    {rule reordered : Rule} (hreordered : rule.Reordered reordered)
    (context : ExecutionContext) :
    reordered.Indeterminate context ↔ rule.Indeterminate context := by
  simp [Rule.Indeterminate, hreordered.refuted_iff,
    hreordered.conditions.mem_iff]

theorem Rule.Reordered.matched_iff
    {rule reordered : Rule} (hreordered : rule.Reordered reordered)
    (context : ExecutionContext) :
    reordered.Matched context ↔ rule.Matched context := by
  simp [Rule.Matched, hreordered.refuted_iff, hreordered.indeterminate_iff]

theorem exists_mem_iff_of_reordered
    {rules reordered : List Rule} (property : Rule → Prop)
    (hproperty : ∀ {rule other : Rule}, rule.Reordered other →
      (property other ↔ property rule))
    (hreordered : List.Forall₂ Rule.Reordered rules reordered) :
    (∃ rule ∈ reordered, property rule) ↔
      ∃ rule ∈ rules, property rule := by
  induction hreordered with
  | nil => simp
  | cons hrule _ ih =>
      simp only [List.mem_cons, exists_eq_or_imp, hproperty hrule, ih]

theorem PolicyDocument.Reordered.idsOf_eq
    {document reordered : PolicyDocument}
    (hreordered : document.Reordered reordered)
    (context : ExecutionContext) (request : ComputeRequest)
    (effect : Effect) (standing : Rule → ExecutionContext → Prop)
    (hstanding : ∀ {rule other : Rule}, rule.Reordered other →
      (standing other context ↔ standing rule context)) :
    reordered.idsOf context request effect standing =
      document.idsOf context request effect standing := by
  obtain ⟨rules, hperm, hrules⟩ := hreordered.rules
  ext id
  rw [PolicyDocument.mem_idsOf, PolicyDocument.mem_idsOf,
    exists_mem_iff_of_reordered
      (fun rule => rule.id = id ∧ rule.Relevant request ∧
        rule.effect = effect ∧ standing rule context)
      (by
        intro rule other hother
        rw [hother.id, hother.effect, hother.relevant_iff,
          hstanding hother])
      hrules]
  simp only [hperm.mem_iff]

theorem PolicyDocument.Reordered.documentedDecision_eq
    {document reordered : PolicyDocument}
    (hreordered : document.Reordered reordered)
    (context : ExecutionContext) (request : ComputeRequest) :
    reordered.documentedDecision context request =
      document.documentedDecision context request := by
  have hmatched : ∀ effect,
      reordered.idsOf context request effect Rule.Matched =
        document.idsOf context request effect Rule.Matched := by
    intro effect
    exact hreordered.idsOf_eq context request effect Rule.Matched
      fun hrule => hrule.matched_iff context
  have hindeterminate :
      reordered.idsOf context request .deny Rule.Indeterminate =
        document.idsOf context request .deny Rule.Indeterminate :=
    hreordered.idsOf_eq context request .deny Rule.Indeterminate
      fun hrule => hrule.indeterminate_iff context
  simp only [PolicyDocument.documentedDecision,
    PolicyDocument.documentedVerdict, hmatched, hindeterminate,
    hreordered.id, hreordered.revision]

/-- A validated policy decides as documented, whatever the order in which its
rules and their conditions were written: the reordered document is accepted
as well and decides every request identically. -/
theorem PolicySet.decides_as_documented_in_any_order
    {document : PolicyDocument} {policy : PolicySet}
    (haccepted : PolicySet.fromDocument document = .ok policy) :
    (∀ context request,
      policy.evaluate context request =
        document.documentedDecision context request) ∧
      ∀ reordered, document.Reordered reordered →
        ∃ other, PolicySet.fromDocument reordered = .ok other ∧
          ∀ context request,
            other.evaluate context request =
              policy.evaluate context request := by
  have hdocument : policy.document = document :=
    PolicySet.fromDocument_eq_ok_iff.mp haccepted
  constructor
  · intro context request
    rw [policy.evaluate_eq_documentedDecision, hdocument]
  · intro reordered hreordered
    have hwell : reordered.WellFormed :=
      hreordered.wellFormed (hdocument ▸ policy.wellFormed)
    have hcheck : reordered.check = .ok () :=
      (PolicyDocument.check_eq_ok_iff reordered).mpr hwell
    refine ⟨⟨reordered, hcheck⟩,
      PolicySet.fromDocument_eq_ok_iff.mpr rfl, ?_⟩
    intro context request
    rw [PolicySet.evaluate_eq_documentedDecision,
      policy.evaluate_eq_documentedDecision, hdocument,
      hreordered.documentedDecision_eq]

/-! ## A policy with both effects -/

def sampleResource : ResourceIdentity :=
  ⟨⟨"fake"⟩, ⟨"gpu"⟩, "gpu-0"⟩

def denyRoot : Rule where
  id := ⟨"deny-root"⟩
  effect := .deny
  resource := sampleResource
  action := .compute
  conditions := [.uid ⟨0, .kernelObserved⟩]

def allowSlice : Rule where
  id := ⟨"allow-slice"⟩
  effect := .allow
  resource := sampleResource
  action := .compute
  conditions := [.cgroupPath ⟨"user.slice", .bestEffort⟩]

def sampleDocument : PolicyDocument := ⟨⟨"p1"⟩, 1, [denyRoot, allowSlice]⟩

def samplePolicy : PolicySet := ⟨sampleDocument, by decide⟩

theorem samplePolicy_decides_as_documented_in_any_order :
    (∀ context request,
      samplePolicy.evaluate context request =
        sampleDocument.documentedDecision context request) ∧
      ∀ reordered, sampleDocument.Reordered reordered →
        ∃ other, PolicySet.fromDocument reordered = .ok other ∧
          ∀ context request,
            other.evaluate context request =
              samplePolicy.evaluate context request :=
  PolicySet.decides_as_documented_in_any_order
    (PolicySet.fromDocument_eq_ok_iff.mpr rfl)

end Eltanin.Core
