import Eltanin.PolicyValidation
import Eltanin.FaultScan

/-!
# Which documents become a policy, and what a refusal names

Validation reports one error although a document may break several rules of
well-formedness.  The rules are looked at in document order, each after the
ones before it, and inside a rule the violations have a fixed order.  So the
error is that of the first offending rule, by the violation which comes first
in that rule.
-/

namespace Eltanin.Core

open FaultScan

/-! ## The violations of a rule -/

inductive RuleViolation where
  | emptyId
  | duplicateId
  | noConditions
  | duplicateConditionField
  | unknownAction
  deriving DecidableEq, Repr

namespace RuleViolation

/-- The order in which the violations of one rule are looked for. -/
def rank : RuleViolation → ℕ
  | .emptyId => 0
  | .duplicateId => 1
  | .noConditions => 2
  | .duplicateConditionField => 3
  | .unknownAction => 4

/-- Whether `rule` commits the violation, coming after the rules `before`:
only a duplicate depends on those, and it is the later rule which offends. -/
def Committed (violation : RuleViolation) (before : List Rule)
    (rule : Rule) : Prop :=
  match violation with
  | .emptyId => rule.id.id = ""
  | .duplicateId => rule.id ∈ before.map Rule.id
  | .noConditions => rule.conditions = []
  | .duplicateConditionField =>
      ¬(rule.conditions.map Condition.kind).Nodup
  | .unknownAction => rule.action = .unknown

def error (violation : RuleViolation) (rule : Rule) : PolicyError :=
  match violation with
  | .emptyId => .emptyRuleId
  | .duplicateId => .duplicateRuleId rule.id
  | .noConditions => .ruleWithoutConditions rule.id
  | .duplicateConditionField => .duplicateConditionKind rule.id
  | .unknownAction => .unknownActionInRule rule.id

/-- The violation which comes first among those the rule commits. -/
structure Leading (violation : RuleViolation) (before : List Rule)
    (rule : Rule) : Prop where
  committed : violation.Committed before rule
  first : ∀ other : RuleViolation, other.Committed before rule →
    violation.rank ≤ other.rank

theorem rank_injective {first second : RuleViolation}
    (hrank : first.rank = second.rank) : first = second := by
  cases first <;> cases second <;> simp [rank] at hrank ⊢

theorem Leading.unique {first second : RuleViolation}
    {before : List Rule} {rule : Rule}
    (hfirst : first.Leading before rule)
    (hsecond : second.Leading before rule) : first = second := by
  apply rank_injective
  apply le_antisymm
  · exact hfirst.first second hsecond.committed
  · exact hsecond.first first hfirst.committed

end RuleViolation

/-- A rule offends with the error of its leading violation. -/
def Rule.Offends (before : List Rule) (rule : Rule) (error : PolicyError) :
    Prop :=
  ∃ violation : RuleViolation, violation.Leading before rule ∧
    error = violation.error rule

/-! ## One rule -/

theorem error_of_checkConditionKinds
    {rule : RuleId} {seenKinds : Finset ConditionKind}
    {conditions : List Condition} {error : PolicyError}
    (herror : checkConditionKinds rule seenKinds conditions =
      .error error) :
    error = .duplicateConditionKind rule := by
  induction conditions generalizing seenKinds with
  | nil => simp [checkConditionKinds] at herror
  | cons condition rest ih =>
      unfold checkConditionKinds at herror
      split at herror
      · exact (Except.error.inj herror).symm
      · exact ih herror

theorem checkConditionKinds_empty_eq_ok_iff
    {rule : RuleId} {conditions : List Condition} :
    checkConditionKinds rule ∅ conditions = .ok () ↔
      (conditions.map Condition.kind).Nodup := by
  rw [checkConditionKinds_eq_ok_iff]
  simp

/-- The ids which the loop has inserted once the rules `before` have
passed. -/
def seenRuleIds (before : List Rule) : Finset RuleId :=
  (before.map Rule.id).toFinset

theorem mem_seenRuleIds {before : List Rule} {id : RuleId} :
    id ∈ seenRuleIds before ↔ id ∈ before.map Rule.id := by
  rw [seenRuleIds, List.mem_toFinset]

theorem seenRuleIds_append_singleton (before : List Rule) (rule : Rule) :
    seenRuleIds (before ++ [rule]) =
      insert rule.id (seenRuleIds before) := by
  ext id
  simp [mem_seenRuleIds, or_comm]

/-- A rule passes after the rules `before` exactly when it commits no
violation. -/
theorem checkRule_eq_ok_iff_forall_not_committed
    (before : List Rule) (rule : Rule) :
    checkRule (seenRuleIds before) rule = .ok () ↔
      ∀ violation : RuleViolation, ¬violation.Committed before rule := by
  rw [checkRule_eq_ok_iff, mem_seenRuleIds]
  constructor
  · rintro ⟨hwell, hfresh⟩ violation hcommitted
    cases violation with
    | emptyId => exact hwell.idNonempty hcommitted
    | duplicateId => exact hfresh hcommitted
    | noConditions => exact hwell.hasCondition hcommitted
    | duplicateConditionField => exact hcommitted hwell.kindsDistinct
    | unknownAction => exact hwell.actionKnown hcommitted
  · intro hnone
    have hkinds := hnone .duplicateConditionField
    simp only [RuleViolation.Committed, not_not] at hkinds
    exact ⟨⟨hnone .emptyId, hnone .noConditions, hkinds,
      hnone .unknownAction⟩, hnone .duplicateId⟩

/-- The checks of one rule stand in the order of the violations, so the check
which fails is about the leading one. -/
theorem offends_of_checkRule_eq_error
    {before : List Rule} {rule : Rule} {error : PolicyError}
    (herror : checkRule (seenRuleIds before) rule = .error error) :
    rule.Offends before error := by
  unfold checkRule at herror
  simp only [mem_seenRuleIds] at herror
  split at herror
  next hid =>
    refine ⟨.emptyId, ⟨hid, ?_⟩, (Except.error.inj herror).symm⟩
    intro other hother
    exact Nat.zero_le other.rank
  next hid =>
  split at herror
  next hduplicate =>
    refine ⟨.duplicateId, ⟨hduplicate, ?_⟩, (Except.error.inj herror).symm⟩
    intro other hother
    cases other with
    | emptyId => exact (hid hother).elim
    | _ => simp [RuleViolation.rank]
  next hfresh =>
  split at herror
  next hempty =>
    refine ⟨.noConditions, ⟨hempty, ?_⟩, (Except.error.inj herror).symm⟩
    intro other hother
    cases other with
    | emptyId => exact (hid hother).elim
    | duplicateId => exact (hfresh hother).elim
    | _ => simp [RuleViolation.rank]
  next hconditions =>
  split at herror
  next kindsError hkinds =>
    have hduplicate : ¬(rule.conditions.map Condition.kind).Nodup := by
      rw [← checkConditionKinds_empty_eq_ok_iff, hkinds]
      simp
    have hfound := error_of_checkConditionKinds hkinds
    have hsame := Except.error.inj herror
    refine ⟨.duplicateConditionField, ⟨hduplicate, ?_⟩,
      hsame.symm.trans hfound⟩
    intro other hother
    cases other with
    | emptyId => exact (hid hother).elim
    | duplicateId => exact (hfresh hother).elim
    | noConditions => exact (hconditions hother).elim
    | _ => simp [RuleViolation.rank]
  next hkinds =>
  rw [checkConditionKinds_empty_eq_ok_iff] at hkinds
  split at herror
  next haction =>
    refine ⟨.unknownAction, ⟨haction, ?_⟩, (Except.error.inj herror).symm⟩
    intro other hother
    cases other with
    | emptyId => exact (hid hother).elim
    | duplicateId => exact (hfresh hother).elim
    | noConditions => exact (hconditions hother).elim
    | duplicateConditionField => exact (hother hkinds).elim
    | unknownAction => exact le_rfl
  · contradiction

theorem checkRule_eq_error_iff
    (before : List Rule) (rule : Rule) (error : PolicyError) :
    checkRule (seenRuleIds before) rule = .error error ↔
      rule.Offends before error := by
  constructor
  · exact offends_of_checkRule_eq_error
  · rintro ⟨violation, hleading, rfl⟩
    cases hcheck : checkRule (seenRuleIds before) rule with
    | ok =>
        have hnone :=
          (checkRule_eq_ok_iff_forall_not_committed before rule).mp hcheck
        exact (hnone violation hleading.committed).elim
    | error found =>
        obtain ⟨other, hother, hfound⟩ := offends_of_checkRule_eq_error hcheck
        rw [hfound, hother.unique hleading]

/-! ## All rules -/

theorem checkRules_eq_scan (before rules : List Rule) :
    checkRules (seenRuleIds before) rules =
      scan (fun past => checkRule (seenRuleIds past)) before rules := by
  induction rules generalizing before with
  | nil => rfl
  | cons rule rest ih =>
      unfold checkRules scan
      rw [← seenRuleIds_append_singleton, ih]
      cases checkRule (seenRuleIds before) rule <;> rfl

theorem PolicyDocument.check_eq_error_iff
    (document : PolicyDocument) (error : PolicyError) :
    document.check = .error error ↔
      (document.id.id = "" ∧ error = .emptyPolicyId) ∨
        (document.id.id ≠ "" ∧
          FirstFault Rule.Offends document.rules error) := by
  unfold check
  by_cases hid : document.id.id = ""
  · simp [hid, eq_comm]
  · have hscan := checkRules_eq_scan [] document.rules
    have hseen : seenRuleIds [] = ∅ := rfl
    rw [hseen] at hscan
    rw [if_neg hid, hscan, scan_eq_error_iff checkRule_eq_error_iff,
      faultAfter_nil]
    simp [hid]

/-! ## The documents accepted -/

theorem PolicySet.fromDocument_eq_error_iff
    {document : PolicyDocument} {error : PolicyError} :
    fromDocument document = .error error ↔
      document.check = .error error := by
  unfold fromDocument
  split
  next hcheck => simp [hcheck]
  next found hcheck => simp [hcheck]

theorem PolicySet.exists_fromDocument_eq_ok_iff
    {document : PolicyDocument} :
    (∃ policy, fromDocument document = .ok policy) ↔
      document.WellFormed := by
  rw [← PolicyDocument.check_eq_ok_iff]
  constructor
  · rintro ⟨policy, hpolicy⟩
    rw [← fromDocument_eq_ok_iff.mp hpolicy]
    exact policy.accepted
  · intro hcheck
    exact ⟨⟨document, hcheck⟩, fromDocument_eq_ok_iff.mpr rfl⟩

/-- A versioned document is judged by its version first and then as the
document it carries. -/
theorem PolicySet.fromVersioned_eq (envelope : Versioned PolicyDocument) :
    fromVersioned envelope =
      if envelope.version = domainSchemaVersion then
        fromDocument envelope.payload
      else .error
        (.unsupportedVersion envelope.version domainSchemaVersion) := by
  unfold fromVersioned Versioned.intoCurrent
  by_cases hversion : envelope.version = domainSchemaVersion
  · rw [if_pos hversion, if_pos hversion]
  · rw [if_neg hversion, if_neg hversion]

/-- `from_document` accepts the well-formed documents and evaluates what it
was given; a refusal names the leading violation of the first offending rule,
unless the policy has no id. -/
theorem PolicySet.fromDocument_exact (document : PolicyDocument) :
    ((∃ policy, fromDocument document = .ok policy) ↔
      document.WellFormed) ∧
    (∀ policy, fromDocument document = .ok policy →
      policy.document = document) ∧
    (∀ error, fromDocument document = .error error ↔
      (document.id.id = "" ∧ error = .emptyPolicyId) ∨
        (document.id.id ≠ "" ∧
          FirstFault Rule.Offends document.rules error)) ∧
    ∀ version policy, fromVersioned ⟨version, document⟩ = .ok policy ↔
      version = domainSchemaVersion ∧
        fromDocument document = .ok policy := by
  refine ⟨exists_fromDocument_eq_ok_iff, ?_, ?_, ?_⟩
  · intro policy
    exact fromDocument_eq_ok_iff.mp
  · intro error
    rw [fromDocument_eq_error_iff]
    exact document.check_eq_error_iff error
  · intro version policy
    rw [fromVersioned_eq]
    by_cases hversion : version = domainSchemaVersion
    · simp [hversion]
    · simp [hversion]

end Eltanin.Core
