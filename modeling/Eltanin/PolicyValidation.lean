import Eltanin.PolicyModel

/-!
# What policy validation accepts

The validation loops thread the set of rule ids, and inside a rule the set of
condition kinds, seen so far.  The invariant of each loop says that what is
still to come is duplicate-free and avoids the accumulator; started with the
empty accumulator it is plain well-formedness of the document, which no
longer depends on the order of rules or conditions.
-/

namespace Eltanin.Core

structure Rule.WellFormed (rule : Rule) : Prop where
  idNonempty : rule.id.id ≠ ""
  hasCondition : rule.conditions ≠ []
  kindsDistinct : (rule.conditions.map Condition.kind).Nodup
  actionKnown : rule.action ≠ .unknown

structure PolicyDocument.WellFormed (document : PolicyDocument) : Prop where
  idNonempty : document.id.id ≠ ""
  rulesWellFormed : ∀ rule ∈ document.rules, rule.WellFormed
  idsDistinct : (document.rules.map Rule.id).Nodup

theorem checkConditionKinds_eq_ok_iff
    (rule : RuleId) (seenKinds : Finset ConditionKind)
    (conditions : List Condition) :
    checkConditionKinds rule seenKinds conditions = .ok () ↔
      (conditions.map Condition.kind).Nodup ∧
        ∀ condition ∈ conditions, condition.kind ∉ seenKinds := by
  induction conditions generalizing seenKinds with
  | nil => simp [checkConditionKinds]
  | cons condition rest ih =>
      unfold checkConditionKinds
      by_cases hseen : condition.kind ∈ seenKinds
      · rw [if_pos hseen]
        constructor
        · intro herror
          contradiction
        · rintro ⟨_, havoid⟩
          exact (havoid condition List.mem_cons_self hseen).elim
      · rw [if_neg hseen, ih]
        simp only [Finset.mem_insert, not_or, List.map_cons,
          List.nodup_cons, List.mem_map, not_exists, not_and,
          List.forall_mem_cons]
        constructor
        · rintro ⟨hnodup, hrest⟩
          refine ⟨⟨?_, hnodup⟩, hseen, ?_⟩
          · intro other hother heq
            exact (hrest other hother).1 heq
          · intro other hother
            exact (hrest other hother).2
        · rintro ⟨⟨hfresh, hnodup⟩, _, hrest⟩
          refine ⟨hnodup, ?_⟩
          intro other hother
          exact ⟨hfresh other hother, hrest other hother⟩

theorem checkRule_eq_ok_iff (seenRuleIds : Finset RuleId) (rule : Rule) :
    checkRule seenRuleIds rule = .ok () ↔
      rule.WellFormed ∧ rule.id ∉ seenRuleIds := by
  have hkinds := checkConditionKinds_eq_ok_iff rule.id ∅ rule.conditions
  simp only [Finset.notMem_empty, not_false_eq_true, implies_true,
    and_true] at hkinds
  unfold checkRule
  constructor
  · intro hok
    split at hok
    · contradiction
    next hid =>
    split at hok
    · contradiction
    next hfresh =>
    split at hok
    · contradiction
    next hcondition =>
    split at hok
    · contradiction
    next hkindsOk =>
    split at hok
    · contradiction
    next haction =>
    exact ⟨⟨hid, hcondition, hkinds.mp hkindsOk, haction⟩, hfresh⟩
  · rintro ⟨hwell, hfresh⟩
    rw [if_neg hwell.idNonempty, if_neg hfresh, if_neg hwell.hasCondition,
      hkinds.mpr hwell.kindsDistinct]
    exact if_neg hwell.actionKnown

theorem checkRules_eq_ok_iff
    (seenRuleIds : Finset RuleId) (rules : List Rule) :
    checkRules seenRuleIds rules = .ok () ↔
      (∀ rule ∈ rules, rule.WellFormed) ∧ (rules.map Rule.id).Nodup ∧
        ∀ rule ∈ rules, rule.id ∉ seenRuleIds := by
  induction rules generalizing seenRuleIds with
  | nil => simp [checkRules]
  | cons rule rest ih =>
      unfold checkRules
      have hrule := checkRule_eq_ok_iff seenRuleIds rule
      cases hcheck : checkRule seenRuleIds rule with
      | error error =>
          simp only [hcheck, reduceCtorEq, false_iff] at hrule
          simp only [reduceCtorEq, false_iff]
          rintro ⟨hwell, _, havoid⟩
          exact hrule ⟨hwell rule List.mem_cons_self,
            havoid rule List.mem_cons_self⟩
      | ok =>
          simp only [hcheck, true_iff] at hrule
          simp only [ih, Finset.mem_insert, not_or, List.map_cons,
            List.nodup_cons, List.mem_map, not_exists, not_and,
            List.forall_mem_cons]
          constructor
          · rintro ⟨hwell, hnodup, hrest⟩
            exact ⟨⟨hrule.1, hwell⟩,
              ⟨fun other hother heq => (hrest other hother).1 heq, hnodup⟩,
              hrule.2, fun other hother => (hrest other hother).2⟩
          · rintro ⟨⟨_, hwell⟩, ⟨hfresh, hnodup⟩, _, hrest⟩
            exact ⟨hwell, hnodup, fun other hother =>
              ⟨hfresh other hother, hrest other hother⟩⟩

theorem PolicyDocument.check_eq_ok_iff (document : PolicyDocument) :
    document.check = .ok () ↔ document.WellFormed := by
  unfold check
  by_cases hid : document.id.id = ""
  · rw [if_pos hid]
    constructor
    · intro herror
      contradiction
    · intro hwell
      exact (hwell.idNonempty hid).elim
  · rw [if_neg hid, checkRules_eq_ok_iff]
    simp only [Finset.notMem_empty, not_false_eq_true, implies_true,
      and_true]
    constructor
    · rintro ⟨hrules, hnodup⟩
      exact ⟨hid, hrules, hnodup⟩
    · intro hwell
      exact ⟨hwell.rulesWellFormed, hwell.idsDistinct⟩

theorem PolicySet.wellFormed (policy : PolicySet) :
    policy.document.WellFormed :=
  (PolicyDocument.check_eq_ok_iff policy.document).mp policy.accepted

/-! ## Reordering a document -/

/-- The same rule with its conditions listed in another order. -/
structure Rule.Reordered (rule reordered : Rule) : Prop where
  id : reordered.id = rule.id
  effect : reordered.effect = rule.effect
  resource : reordered.resource = rule.resource
  action : reordered.action = rule.action
  conditions : rule.conditions.Perm reordered.conditions

/-- The same document with its rules listed in another order, each of them
with its conditions in any order. -/
structure PolicyDocument.Reordered
    (document reordered : PolicyDocument) : Prop where
  id : reordered.id = document.id
  revision : reordered.revision = document.revision
  rules : ∃ rules, document.rules.Perm rules ∧
    List.Forall₂ Rule.Reordered rules reordered.rules

theorem Rule.Reordered.wellFormed
    {rule reordered : Rule} (hreordered : rule.Reordered reordered)
    (hwell : rule.WellFormed) : reordered.WellFormed where
  idNonempty := hreordered.id ▸ hwell.idNonempty
  hasCondition := by
    intro hnil
    have hperm := hreordered.conditions
    rw [hnil] at hperm
    exact hwell.hasCondition hperm.eq_nil
  kindsDistinct :=
    (hreordered.conditions.map Condition.kind).nodup_iff.mp
      hwell.kindsDistinct
  actionKnown := hreordered.action ▸ hwell.actionKnown

theorem map_id_eq_of_reordered {rules reordered : List Rule}
    (hreordered : List.Forall₂ Rule.Reordered rules reordered) :
    reordered.map Rule.id = rules.map Rule.id := by
  induction hreordered with
  | nil => rfl
  | cons hrule _ ih => simp [hrule.id, ih]

theorem forall_wellFormed_of_reordered {rules reordered : List Rule}
    (hreordered : List.Forall₂ Rule.Reordered rules reordered)
    (hwell : ∀ rule ∈ rules, rule.WellFormed) :
    ∀ rule ∈ reordered, rule.WellFormed := by
  induction hreordered with
  | nil => simp
  | @cons first second firstRest secondRest hrule hrest ih =>
      simp only [List.forall_mem_cons] at hwell ⊢
      exact ⟨hrule.wellFormed hwell.1, ih hwell.2⟩

theorem PolicyDocument.Reordered.wellFormed
    {document reordered : PolicyDocument}
    (hreordered : document.Reordered reordered)
    (hwell : document.WellFormed) : reordered.WellFormed := by
  obtain ⟨rules, hperm, hrules⟩ := hreordered.rules
  constructor
  · rw [hreordered.id]
    exact hwell.idNonempty
  · apply forall_wellFormed_of_reordered hrules
    intro rule hrule
    exact hwell.rulesWellFormed rule (hperm.mem_iff.mpr hrule)
  · rw [map_id_eq_of_reordered hrules]
    exact (hperm.map Rule.id).nodup_iff.mp hwell.idsDistinct

end Eltanin.Core
