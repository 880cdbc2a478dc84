import Eltanin.PolicyEvidenceScope

/-!
# An explanation is sufficient on its own

A decision explains itself by rule ids.  Cutting the document down to the
rules it names leaves a document which is accepted again and decides the
request in the same way, reason included: in each branch of the precedence
the reason lists every set which was consulted and not found empty.  The ids
point at rules without ambiguity, because validation keeps them distinct.
-/

namespace Eltanin.Core

/-- The rules a reason names: matched, overridden or indeterminate. -/
def DecisionReason.ruleIds : DecisionReason → Finset RuleId
  | .noMatchingRule => ∅
  | .explicitAllow matchedRules => matchedRules
  | .explicitDeny matchedRules overriddenAllowRules =>
      matchedRules ∪ overriddenAllowRules
  | .indeterminateEvidence rules => rules

/-- The same document with the rules of these ids only, in their order. -/
def PolicyDocument.restrict (document : PolicyDocument)
    (ids : Finset RuleId) : PolicyDocument :=
  { document with rules := document.rules.filter fun rule => rule.id ∈ ids }

theorem PolicyDocument.mem_rules_restrict {document : PolicyDocument}
    {ids : Finset RuleId} {rule : Rule} :
    rule ∈ (document.restrict ids).rules ↔
      rule ∈ document.rules ∧ rule.id ∈ ids := by
  simp [restrict]

theorem PolicyDocument.WellFormed.restrict {document : PolicyDocument}
    (hwell : document.WellFormed) (ids : Finset RuleId) :
    (document.restrict ids).WellFormed where
  idNonempty := hwell.idNonempty
  rulesWellFormed := by
    intro rule hrule
    exact hwell.rulesWellFormed rule (mem_rules_restrict.mp hrule).1
  idsDistinct := by
    have hsublist : ((document.restrict ids).rules.map Rule.id).Sublist
        (document.rules.map Rule.id) :=
      List.filter_sublist.map Rule.id
    exact hwell.idsDistinct.sublist hsublist

/-! ## The precedence looks at nothing it does not report -/

namespace PolicySet.Hits

def restrict (hits : Hits) (ids : Finset RuleId) : Hits where
  allowHits := hits.allowHits ∩ ids
  denyHits := hits.denyHits ∩ ids
  indeterminateDenyHits := hits.indeterminateDenyHits ∩ ids

/-- A branch of the precedence is taken because the earlier sets are empty,
which they still are, and the sets it reports are kept whole. -/
theorem verdict_restrict_ruleIds (hits : Hits) :
    (hits.restrict hits.verdict.2.ruleIds).verdict = hits.verdict := by
  by_cases hdeny : hits.denyHits = ∅
  · by_cases hindeterminate : hits.indeterminateDenyHits = ∅
    · by_cases hallow : hits.allowHits = ∅
      · simp [verdict, restrict, hdeny, hindeterminate, hallow]
      · simp [verdict, restrict, hdeny, hindeterminate, hallow,
          DecisionReason.ruleIds]
    · simp [verdict, restrict, hdeny, hindeterminate,
        DecisionReason.ruleIds]
  · have hdenyKept : hits.denyHits ∩ (hits.denyHits ∪ hits.allowHits) =
        hits.denyHits :=
      Finset.inter_eq_left.mpr Finset.subset_union_left
    have hallowKept : hits.allowHits ∩ (hits.denyHits ∪ hits.allowHits) =
        hits.allowHits :=
      Finset.inter_eq_left.mpr Finset.subset_union_right
    simp [verdict, restrict, hdeny, DecisionReason.ruleIds, hdenyKept,
      hallowKept]

theorem mem_of_mem_verdict_ruleIds {hits : Hits} {id : RuleId}
    (hid : id ∈ hits.verdict.2.ruleIds) :
    id ∈ hits.allowHits ∨ id ∈ hits.denyHits ∨
      id ∈ hits.indeterminateDenyHits := by
  unfold verdict at hid
  split at hid
  · rcases Finset.mem_union.mp hid with hdenied | hallowed
    · exact .inr (.inl hdenied)
    · exact .inl hallowed
  split at hid
  · exact .inr (.inr hid)
  split at hid
  · exact .inl hid
  · simp [DecisionReason.ruleIds] at hid

end PolicySet.Hits

/-! ## Collecting over the named rules only -/

section Collecting

variable {context : ExecutionContext} {request : ComputeRequest}

theorem PolicyDocument.idsOf_restrict (document : PolicyDocument)
    (ids : Finset RuleId) (effect : Effect)
    (standing : Rule → ExecutionContext → Prop) :
    (document.restrict ids).idsOf context request effect standing =
      document.idsOf context request effect standing ∩ ids := by
  ext id
  rw [Finset.mem_inter, PolicyDocument.mem_idsOf, PolicyDocument.mem_idsOf]
  constructor
  · rintro ⟨rule, hmem, rfl, hstanding⟩
    rw [PolicyDocument.mem_rules_restrict] at hmem
    exact ⟨⟨rule, hmem.1, rfl, hstanding⟩, hmem.2⟩
  · rintro ⟨⟨rule, hmem, rfl, hstanding⟩, hid⟩
    exact ⟨rule, PolicyDocument.mem_rules_restrict.mpr ⟨hmem, hid⟩, rfl,
      hstanding⟩

theorem PolicySet.collectHits_restrict (document : PolicyDocument)
    (ids : Finset RuleId) :
    collectHits context request Hits.empty (document.restrict ids).rules =
      (collectHits context request Hits.empty document.rules).restrict
        ids := by
  rw [collectHits_eq_documented, collectHits_eq_documented]
  simp only [Hits.restrict, PolicyDocument.idsOf_restrict]

/-- A policy over the rules its decision names decides the same. -/
theorem PolicySet.evaluate_restrict_ruleIds {policy restricted : PolicySet}
    (hrestricted : restricted.document = policy.document.restrict
      (policy.evaluate context request).reason.ruleIds) :
    restricted.evaluate context request =
      policy.evaluate context request := by
  let hits := collectHits context request Hits.empty policy.document.rules
  have hhits : collectHits context request Hits.empty
      restricted.document.rules = hits.restrict hits.verdict.2.ruleIds := by
    rw [hrestricted]
    exact collectHits_restrict policy.document hits.verdict.2.ruleIds
  have hprovenance : restricted.provenance = policy.provenance := by
    unfold provenance
    rw [hrestricted]
    rfl
  unfold evaluate
  simp only [hhits, Hits.verdict_restrict_ruleIds, hprovenance]
  rfl

theorem PolicySet.exists_relevant_of_mem_ruleIds {policy : PolicySet}
    {id : RuleId}
    (hid : id ∈ (policy.evaluate context request).reason.ruleIds) :
    ∃ rule ∈ policy.document.rules, rule.id = id ∧
      rule.Relevant request := by
  have hhit := Hits.mem_of_mem_verdict_ruleIds hid
  rw [collectHits_eq_documented] at hhit
  simp only [PolicyDocument.mem_idsOf] at hhit
  rcases hhit with ⟨rule, hmem, heq, hrelevant, _⟩ |
      ⟨rule, hmem, heq, hrelevant, _⟩ | ⟨rule, hmem, heq, hrelevant, _⟩
  · exact ⟨rule, hmem, heq, hrelevant⟩
  · exact ⟨rule, hmem, heq, hrelevant⟩
  · exact ⟨rule, hmem, heq, hrelevant⟩

end Collecting

theorem filter_id_eq_singleton {rules : List Rule} {rule : Rule}
    (hdistinct : (rules.map Rule.id).Nodup) (hmem : rule ∈ rules) :
    (rules.filter fun other => other.id = rule.id) = [rule] := by
  induction rules with
  | nil => contradiction
  | cons first rest ih =>
      rw [List.map_cons, List.nodup_cons] at hdistinct
      obtain ⟨hfresh, hrest⟩ := hdistinct
      rcases List.mem_cons.mp hmem with rfl | hlater
      · have hnone : ∀ other ∈ rest, ¬other.id = rule.id := by
          intro other hother heq
          exact hfresh (heq ▸ List.mem_map_of_mem hother)
        rw [List.filter_cons_of_pos (by simp), List.filter_eq_nil_iff.mpr]
        simpa using hnone
      · have hne : first.id ≠ rule.id := by
          intro heq
          exact hfresh (heq ▸ List.mem_map_of_mem hlater)
        rw [List.filter_cons_of_neg (by simpa using hne), ih hrest hlater]

/-- Restricting an accepted document to the rules its decision names gives
an accepted document with the same decision, and each of these ids is that of
exactly one rule, which is about the request. -/
theorem PolicySet.explanation_sufficient {document : PolicyDocument}
    {policy : PolicySet}
    (haccepted : PolicySet.fromDocument document = .ok policy)
    (context : ExecutionContext) (request : ComputeRequest) :
    let decision := policy.evaluate context request
    (∃ restricted,
      fromDocument (document.restrict decision.reason.ruleIds) =
        .ok restricted ∧
      restricted.evaluate context request = decision) ∧
    ∀ id ∈ decision.reason.ruleIds,
      ∃ rule, (document.rules.filter fun other => other.id = id) = [rule] ∧
        rule.resource = request.resource ∧
        rule.action = request.action := by
  intro decision
  have hdocument := fromDocument_eq_ok_iff.mp haccepted
  have hwell : document.WellFormed := hdocument ▸ policy.wellFormed
  constructor
  · have hcheck := (PolicyDocument.check_eq_ok_iff _).mpr
      (hwell.restrict decision.reason.ruleIds)
    refine ⟨⟨document.restrict decision.reason.ruleIds, hcheck⟩,
      fromDocument_eq_ok_iff.mpr rfl, ?_⟩
    apply evaluate_restrict_ruleIds
    rw [hdocument]
  · intro id hid
    obtain ⟨rule, hmem, heq, hrelevant⟩ := exists_relevant_of_mem_ruleIds hid
    rw [hdocument] at hmem
    refine ⟨rule, ?_, hrelevant.1, hrelevant.2⟩
    rw [← heq]
    exact filter_id_eq_singleton hwell.idsDistinct hmem

theorem sliceContext_explanation_sufficient :
    let decision :=
      samplePolicy.evaluate sliceContext ⟨sampleResource, .compute⟩
    (∃ restricted,
      PolicySet.fromDocument
          (sampleDocument.restrict decision.reason.ruleIds) =
        .ok restricted ∧
      restricted.evaluate sliceContext ⟨sampleResource, .compute⟩ =
        decision) ∧
    ∀ id ∈ decision.reason.ruleIds,
      ∃ rule,
        (sampleDocument.rules.filter fun other => other.id = id) = [rule] ∧
        rule.resource = sampleResource ∧ rule.action = .compute := by
  have haccepted :
      PolicySet.fromDocument sampleDocument = .ok samplePolicy :=
    PolicySet.fromDocument_eq_ok_iff.mpr rfl
  exact PolicySet.explanation_sufficient haccepted sliceContext
    ⟨sampleResource, .compute⟩

end Eltanin.Core
