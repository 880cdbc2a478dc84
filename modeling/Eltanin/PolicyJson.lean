import Eltanin.DescribedDocuments
import Eltanin.PolicyModel
import Eltanin.WireJson

/-!
# Policies as documents

How a policy document is written and read.  None of its types denies unknown
fields.  A condition stands beside its tag, and is therefore read from a
buffer; the effect and the action of a rule are not.
-/

namespace Eltanin.Core

open Json

/-! ## Writing -/

def Effect.name : Effect → String
  | .allow => "allow"
  | .deny => "deny"

def TrustFloor.name : TrustFloor → String
  | .kernelObserved => "kernel_observed"
  | .bestEffort => "best_effort"

def ConditionKind.name : ConditionKind → String
  | .uid => "uid"
  | .gid => "gid"
  | .executablePath => "executable_path"
  | .executableHash => "executable_hash"
  | .cgroupPath => "cgroup_path"

def Condition.expectedJson : Condition → JsonValue
  | .uid m => u32Json m.expected
  | .gid m => u32Json m.expected
  | .executablePath m => .string m.expected
  | .executableHash m => .string m.expected
  | .cgroupPath m => .string m.expected

def Condition.minTrust : Condition → TrustFloor
  | .uid m => m.minTrust
  | .gid m => m.minTrust
  | .executablePath m => m.minTrust
  | .executableHash m => m.minTrust
  | .cgroupPath m => m.minTrust

def conditionJson (condition : Condition) : JsonValue :=
  taggedJson "field" condition.kind.name
    [("expected", condition.expectedJson),
      ("min_trust", .string condition.minTrust.name)]

def ruleJson (rule : Rule) : JsonValue :=
  .object [("id", .string rule.id.id), ("effect", .string rule.effect.name),
    ("resource", resourceJson rule.resource),
    ("action", actionJson rule.action),
    ("conditions", vectorJson conditionJson rule.conditions)]

def policyDocumentJson (document : PolicyDocument) : JsonValue :=
  .object [("id", .string document.id.id),
    ("revision", u32Json document.revision),
    ("rules", vectorJson ruleJson document.rules)]

/-! ## Reading -/

def readEffect : JsonValue → Option Effect :=
  readUnitVariant false fun name =>
    [("allow", .allow), ("deny", .deny)].lookup name

def readTrustFloor : JsonValue → Option TrustFloor :=
  readUnitVariant true fun name =>
    [("kernel_observed", .kernelObserved), ("best_effort", .bestEffort)].lookup
      name

def readEvidenceMatch {α : Type} (read : JsonValue → Option α)
    (value : JsonValue) : Option (EvidenceMatch α) := do
  let fields ← fieldsOf false ["expected", "min_trust"] value
  let expected ← required read fields "expected"
  let minTrust ← required readTrustFloor fields "min_trust"
  return ⟨expected, minTrust⟩

def readCondition : JsonValue → Option Condition :=
  readTagged false "field"
    [("uid", fun content => (readEvidenceMatch readU32 content).map .uid),
      ("gid", fun content => (readEvidenceMatch readU32 content).map .gid),
      ("executable_path", fun content =>
        (readEvidenceMatch readString content).map .executablePath),
      ("executable_hash", fun content =>
        (readEvidenceMatch readString content).map .executableHash),
      ("cgroup_path", fun content =>
        (readEvidenceMatch readString content).map .cgroupPath)]

/-- The action of a rule, which is read from the text itself. -/
def readRuleAction : JsonValue → Option Action :=
  readUnitVariant false fun name =>
    if name = "compute" then some .compute else some .unknown

def readRule (value : JsonValue) : Option Rule := do
  let fields ←
    fieldsOf false ["id", "effect", "resource", "action", "conditions"] value
  let id ← required readString fields "id"
  let effect ← required readEffect fields "effect"
  let resource ← required readResource fields "resource"
  let action ← required readRuleAction fields "action"
  let conditions ← required (readVector readCondition) fields "conditions"
  return ⟨⟨id⟩, effect, resource, action, conditions⟩

def readPolicyDocument (value : JsonValue) : Option PolicyDocument := do
  let fields ← fieldsOf false ["id", "revision", "rules"] value
  let id ← required readString fields "id"
  let revision ← required readU32 fields "revision"
  let rules ← required (readVector readRule) fields "rules"
  return ⟨⟨id⟩, revision, rules⟩

/-! ## Reading back -/

@[simp] theorem readEffect_name (effect : Effect) :
    readEffect (.string effect.name) = some effect := by
  cases effect <;> rfl

@[simp] theorem readTrustFloor_name (floor : TrustFloor) :
    readTrustFloor (.string floor.name) = some floor := by
  cases floor <;> rfl

@[simp] theorem readEvidenceMatch_members {α : Type}
    {read : JsonValue → Option α} {expected : JsonValue} {floor : TrustFloor} :
    readEvidenceMatch read (.object [("expected", expected),
        ("min_trust", .string floor.name)]) =
      (read expected).map fun content => ⟨content, floor⟩ := by
  cases hread : read expected <;> simp [readEvidenceMatch, hread]

@[simp] theorem readCondition_conditionJson (condition : Condition) :
    readCondition (conditionJson condition) = some condition := by
  unfold readCondition conditionJson
  rw [readTagged_taggedJson (by simp)]
  cases condition <;>
    simp [Condition.kind, ConditionKind.name, Condition.expectedJson,
      Condition.minTrust]

@[simp] theorem readRuleAction_actionJson (action : Action) :
    readRuleAction (actionJson action) = some action := by
  cases action <;> rfl

@[simp] theorem readRule_ruleJson (rule : Rule) :
    readRule (ruleJson rule) = some rule := by
  have hconditions := readVector_vectorJson fun condition
    (_ : condition ∈ rule.conditions) => readCondition_conditionJson condition
  simp [readRule, ruleJson, hconditions]

@[simp] theorem readPolicyDocument_policyDocumentJson
    (document : PolicyDocument) :
    readPolicyDocument (policyDocumentJson document) = some document := by
  have hrules := readVector_vectorJson fun rule (_ : rule ∈ document.rules) =>
    readRule_ruleJson rule
  simp [readPolicyDocument, policyDocumentJson, hrules]

end Eltanin.Core
