import Eltanin.IdentityModel

/-!
# Authorization policy

A policy document is a list of rules; only a document which passes validation
becomes a `PolicySet`, and only a `PolicySet` can be evaluated.  Each rule
names one resource and one action and requires all of its conditions; a
condition compares one observed field with an expected value, at a trust
floor.  Evaluation looks at every rule and lets a deny rule override.
-/

namespace Eltanin.Core

def domainSchemaVersion : UInt16 := 1

/-- What crosses a serialization boundary says its version. -/
structure Versioned (α : Type) where
  version : UInt16
  payload : α
  deriving DecidableEq, Repr

def Versioned.current {α : Type} (payload : α) : Versioned α :=
  ⟨domainSchemaVersion, payload⟩

/-- The error names the version found and the one expected; it becomes the
caller's own error on the way out. -/
def Versioned.intoCurrent {α ε : Type}
    (unsupportedVersion : UInt16 → UInt16 → ε) (self : Versioned α) :
    Except ε α :=
  if self.version = domainSchemaVersion then .ok self.payload
  else .error (unsupportedVersion self.version domainSchemaVersion)

structure PolicyId where
  id : String
  deriving DecidableEq, Repr

structure RuleId where
  id : String
  deriving DecidableEq, Repr

inductive Effect where
  | allow
  | deny
  deriving DecidableEq, Repr

/-- There is no floor which a self-asserted claim could clear. -/
inductive TrustFloor where
  | kernelObserved
  | bestEffort
  deriving DecidableEq, Repr

def TrustFloor.admits : TrustFloor → EvidenceSource → Bool
  | .kernelObserved, .kernelObserved => true
  | .bestEffort, .kernelObserved => true
  | .bestEffort, .bestEffort => true
  | _, .selfAsserted => false
  | .kernelObserved, .bestEffort => false

structure EvidenceMatch (α : Type) where
  expected : α
  minTrust : TrustFloor
  deriving DecidableEq, Repr

inductive ConditionOutcome where
  | matched
  | notMatched
  | indeterminate
  deriving DecidableEq, Repr

def EvidenceMatch.evaluate {α : Type} [DecidableEq α]
    (self : EvidenceMatch α) : Evidence α → ConditionOutcome
  | .present value source =>
      if value = self.expected ∧ self.minTrust.admits source = true then
        .matched
      else .notMatched
  | .missing _ => .indeterminate
  | .unsupported => .indeterminate

inductive Condition where
  | uid (expected : EvidenceMatch UInt32)
  | gid (expected : EvidenceMatch UInt32)
  | executablePath (expected : EvidenceMatch String)
  | executableHash (expected : EvidenceMatch String)
  | cgroupPath (expected : EvidenceMatch String)
  deriving DecidableEq, Repr

inductive ConditionKind where
  | uid
  | gid
  | executablePath
  | executableHash
  | cgroupPath
  deriving DecidableEq, Repr

def Condition.kind : Condition → ConditionKind
  | .uid _ => .uid
  | .gid _ => .gid
  | .executablePath _ => .executablePath
  | .executableHash _ => .executableHash
  | .cgroupPath _ => .cgroupPath

def Condition.evaluate (self : Condition) (context : ExecutionContext) :
    ConditionOutcome :=
  match self with
  | .uid m => m.evaluate context.workload.uid
  | .gid m => m.evaluate context.workload.gid
  | .executablePath m => m.evaluate context.workload.executablePath
  | .executableHash m => m.evaluate context.workload.executableHash
  | .cgroupPath m => m.evaluate context.cgroupPath

structure Rule where
  id : RuleId
  effect : Effect
  resource : ResourceIdentity
  action : Action
  conditions : List Condition
  deriving DecidableEq, Repr

/-- The loop of `Rule::evaluate` over the conditions: it leaves at the first
condition which is not matched and otherwise remembers whether one was
indeterminate. -/
def Rule.evaluateConditions (context : ExecutionContext) :
    Bool → List Condition → ConditionOutcome
  | anyIndeterminate, [] =>
      if anyIndeterminate then .indeterminate else .matched
  | anyIndeterminate, condition :: rest =>
      match condition.evaluate context with
      | .notMatched => .notMatched
      | .indeterminate => evaluateConditions context true rest
      | .matched => evaluateConditions context anyIndeterminate rest

/-- `none` when the rule is not about this request at all. -/
def Rule.evaluate (self : Rule) (context : ExecutionContext)
    (request : ComputeRequest) : Option ConditionOutcome :=
  if self.resource ≠ request.resource ∨ self.action ≠ request.action then
    none
  else
    some (evaluateConditions context false self.conditions)

structure PolicyDocument where
  id : PolicyId
  revision : UInt32
  rules : List Rule
  deriving DecidableEq, Repr

inductive PolicyError where
  | emptyPolicyId
  | emptyRuleId
  | duplicateRuleId (rule : RuleId)
  | ruleWithoutConditions (rule : RuleId)
  | duplicateConditionKind (rule : RuleId)
  | unknownActionInRule (rule : RuleId)
  | unsupportedVersion (found expected : UInt16)
  deriving DecidableEq, Repr

structure PolicyProvenance where
  policyId : PolicyId
  policyRevision : UInt32
  schemaVersion : UInt16
  deriving DecidableEq, Repr

/-- The rule ids are sets, so that an explanation does not depend on the
order in which rules were authored. -/
inductive DecisionReason where
  | noMatchingRule
  | explicitAllow (matchedRules : Finset RuleId)
  | explicitDeny (matchedRules overriddenAllowRules : Finset RuleId)
  | indeterminateEvidence (rules : Finset RuleId)
  deriving DecidableEq

structure PolicyDecision where
  effect : Effect
  reason : DecisionReason
  policy : PolicyProvenance
  deriving DecidableEq

/-! ## Validation -/

/-- The inner loop of `PolicySet::from_document`, with the set of condition
kinds already seen in this rule. -/
def checkConditionKinds (rule : RuleId) :
    Finset ConditionKind → List Condition → Except PolicyError Unit
  | _, [] => .ok ()
  | seenKinds, condition :: rest =>
      if condition.kind ∈ seenKinds then
        .error (.duplicateConditionKind rule)
      else checkConditionKinds rule (insert condition.kind seenKinds) rest

def checkRule (seenRuleIds : Finset RuleId) (rule : Rule) :
    Except PolicyError Unit :=
  if rule.id.id = "" then .error .emptyRuleId
  else if rule.id ∈ seenRuleIds then .error (.duplicateRuleId rule.id)
  else if rule.conditions = [] then .error (.ruleWithoutConditions rule.id)
  else
    match checkConditionKinds rule.id ∅ rule.conditions with
    | .error error => .error error
    | .ok () =>
        if rule.action = .unknown then .error (.unknownActionInRule rule.id)
        else .ok ()

def checkRules : Finset RuleId → List Rule → Except PolicyError Unit
  | _, [] => .ok ()
  | seenRuleIds, rule :: rest =>
      match checkRule seenRuleIds rule with
      | .error error => .error error
      | .ok () => checkRules (insert rule.id seenRuleIds) rest

def PolicyDocument.check (document : PolicyDocument) :
    Except PolicyError Unit :=
  if document.id.id = "" then .error .emptyPolicyId
  else checkRules ∅ document.rules

/-- A validated policy: a document together with the fact that it passed. -/
structure PolicySet where
  document : PolicyDocument
  accepted : document.check = .ok ()

def PolicySet.fromDocument (document : PolicyDocument) :
    Except PolicyError PolicySet :=
  match hcheck : document.check with
  | .ok () => .ok ⟨document, hcheck⟩
  | .error error => .error error

theorem PolicySet.fromDocument_eq_ok_iff
    {document : PolicyDocument} {policy : PolicySet} :
    fromDocument document = .ok policy ↔ policy.document = document := by
  constructor
  · intro hok
    unfold fromDocument at hok
    split at hok
    · rw [← Except.ok.inj hok]
    · contradiction
  · rintro rfl
    unfold fromDocument
    split
    · rfl
    next herror =>
      have haccepted := policy.accepted
      rw [herror] at haccepted
      contradiction

def PolicySet.fromVersioned (envelope : Versioned PolicyDocument) :
    Except PolicyError PolicySet :=
  match envelope.intoCurrent .unsupportedVersion with
  | .ok document => fromDocument document
  | .error error => .error error

/-- The loop of `PolicySet::resources`, with the set of resources already
seen. -/
def resourcesOfRules :
    Finset ResourceIdentity → List Rule → List ResourceIdentity
  | _, [] => []
  | seen, rule :: rest =>
      if rule.resource ∈ seen then resourcesOfRules seen rest
      else rule.resource :: resourcesOfRules (insert rule.resource seen) rest

def PolicySet.resources (self : PolicySet) : List ResourceIdentity :=
  resourcesOfRules ∅ self.document.rules

/-! ## Evaluation -/

namespace PolicySet

def provenance (self : PolicySet) : PolicyProvenance where
  policyId := self.document.id
  policyRevision := self.document.revision
  schemaVersion := domainSchemaVersion

structure Hits where
  allowHits : Finset RuleId
  denyHits : Finset RuleId
  indeterminateDenyHits : Finset RuleId
  deriving DecidableEq

def Hits.empty : Hits := ⟨∅, ∅, ∅⟩

def Hits.record (hits : Hits) (rule : Rule) :
    Option ConditionOutcome → Hits
  | none => hits
  | some .notMatched => hits
  | some .matched =>
      match rule.effect with
      | .allow => { hits with allowHits := insert rule.id hits.allowHits }
      | .deny => { hits with denyHits := insert rule.id hits.denyHits }
  | some .indeterminate =>
      if rule.effect = .deny then
        { hits with
          indeterminateDenyHits := insert rule.id hits.indeterminateDenyHits }
      else hits

def collectHits (context : ExecutionContext) (request : ComputeRequest) :
    Hits → List Rule → Hits
  | hits, [] => hits
  | hits, rule :: rest =>
      collectHits context request
        (hits.record rule (rule.evaluate context request)) rest

/-- The four-way precedence at the end of `evaluate`. -/
def Hits.verdict (hits : Hits) : Effect × DecisionReason :=
  if hits.denyHits ≠ ∅ then
    (.deny, .explicitDeny hits.denyHits hits.allowHits)
  else if hits.indeterminateDenyHits ≠ ∅ then
    (.deny, .indeterminateEvidence hits.indeterminateDenyHits)
  else if hits.allowHits ≠ ∅ then
    (.allow, .explicitAllow hits.allowHits)
  else (.deny, .noMatchingRule)

def evaluate (self : PolicySet) (context : ExecutionContext)
    (request : ComputeRequest) : PolicyDecision :=
  let hits := collectHits context request Hits.empty self.document.rules
  { effect := hits.verdict.1
    reason := hits.verdict.2
    policy := self.provenance }

theorem Hits.verdict_reason_ne_explicitAllow {hits : Hits}
    (hdeny : hits.verdict.1 ≠ .allow) (ids : Finset RuleId) :
    hits.verdict.2 ≠ .explicitAllow ids := by
  unfold verdict at hdeny ⊢
  split
  · simp
  split
  · simp
  split
  next hdenied hindeterminate hallowed =>
    simp [hdenied, hindeterminate, hallowed] at hdeny
  · simp

theorem reason_ne_explicitAllow {policy : PolicySet}
    {context : ExecutionContext} {request : ComputeRequest}
    (hdeny : (policy.evaluate context request).effect ≠ .allow)
    (ids : Finset RuleId) :
    (policy.evaluate context request).reason ≠ .explicitAllow ids :=
  Hits.verdict_reason_ne_explicitAllow hdeny ids

end PolicySet

end Eltanin.Core
