import Eltanin.DescribedMessages
import Eltanin.LinuxProcess
import Eltanin.PolicyAcceptance
import Eltanin.PolicyDecisionSemantics
import Eltanin.PolicyJson

/-!
# Policy files

The policy which the agent evaluates comes from a file.  What a document says
about a policy is stated over the shapes of its members; loading succeeds on
just the texts of which the document describes a well-formed policy in the
current version, and every refusal says which of its four stages has failed.
-/

namespace Eltanin.Core

open Json

/-! ## What a document describes -/

def DescribesResource (document : JsonValue) (resource : ResourceIdentity) :
    Prop :=
  Carries false (resourceMembers resource) document

/-- Every name but one is that of an unknown action. -/
def DescribesAction (buffered : Bool) (document : JsonValue)
    (action : Action) : Prop :=
  ∃ name, NamesVariant buffered name document ∧
    (action = .compute ↔ name = "compute")

def DescribesCondition (document : JsonValue) (condition : Condition) :
    Prop :=
  ∃ floor, Carries false [("field", .string condition.kind.name),
      ("expected", condition.expectedJson), ("min_trust", floor)] document ∧
    NamesVariant true condition.minTrust.name floor

def DescribesRule (document : JsonValue) (rule : Rule) : Prop :=
  ∃ effect resource action conditions,
    Carries false [("id", .string rule.id.id), ("effect", effect),
      ("resource", resource), ("action", action),
      ("conditions", conditions)] document ∧
    NamesVariant false rule.effect.name effect ∧
    DescribesResource resource rule.resource ∧
    DescribesAction false action rule.action ∧
    DescribesItems DescribesCondition conditions rule.conditions

def DescribesPolicy (document : JsonValue) (policy : PolicyDocument) : Prop :=
  ∃ rules, Carries false [("id", .string policy.id.id),
      ("revision", u32Json policy.revision), ("rules", rules)] document ∧
    DescribesItems DescribesRule rules policy.rules

/-! ## The readers are exact -/

theorem readResource_exact : ReadsExactly readResource DescribesResource := by
  intro document resource
  have htriple : readResource document = some resource ↔ _ :=
    bind_required_triple_iff (by simp)
  simp only [htriple, readString_eq_some_iff]
  constructor
  · rintro ⟨-, -, -, hshape, vendor, kind, localId, rfl, rfl, rfl, rfl⟩
    exact hshape
  · intro hshape
    exact ⟨_, _, _, hshape, _, _, _, rfl, rfl, rfl, rfl⟩

theorem readEffect_exact : ReadsExactly readEffect
    fun document effect => NamesVariant false effect.name document :=
  readUnitVariant_lookup_exact (by simp [Effect.name])
    (by rintro ⟨⟩ <;> rfl)

theorem readTrustFloor_exact : ReadsExactly readTrustFloor
    fun document floor => NamesVariant true floor.name document :=
  readUnitVariant_lookup_exact (by simp [TrustFloor.name])
    (by rintro ⟨⟩ <;> rfl)

theorem readRuleAction_exact :
    ReadsExactly readRuleAction (DescribesAction false) := by
  intro document action
  rw [readRuleAction, readUnitVariant_eq_some_iff]
  apply exists_congr
  intro name
  apply and_congr_right
  intro _
  by_cases hname : name = "compute" <;> cases action <;> simp [hname]

theorem readEvidenceMatch_eq_some_iff {α : Type} {read : JsonValue → Option α}
    {document : JsonValue} {m : EvidenceMatch α} :
    readEvidenceMatch read document = some m ↔
      ∃ expected floor, Carries false [("expected", expected),
          ("min_trust", floor)] document ∧
        read expected = some m.expected ∧
        NamesVariant true m.minTrust.name floor := by
  have hpair : readEvidenceMatch read document = some m ↔ _ :=
    bind_required_pair_iff (by simp)
  rw [hpair]
  constructor
  · rintro ⟨expected, floor, hshape, content, trust, hcontent, htrust, rfl⟩
    exact ⟨expected, floor, hshape, hcontent,
      (readTrustFloor_exact floor trust).mp htrust⟩
  · rintro ⟨expected, floor, hshape, hcontent, htrust⟩
    exact ⟨expected, floor, hshape, m.expected, m.minTrust, hcontent,
      (readTrustFloor_exact floor m.minTrust).mpr htrust, rfl⟩

/-- A condition is the match of its field, under the name of the field. -/
theorem readCondition_eq_some_iff {document : JsonValue}
    {condition : Condition} :
    readCondition document = some condition ↔
      ∃ content, taggedContent "field" document =
          some (.string condition.kind.name, content) ∧
        ∃ floor, Carries false [("expected", condition.expectedJson),
            ("min_trust", floor)] content ∧
          NamesVariant true condition.minTrust.name floor := by
  constructor
  · intro hread
    simp only [readCondition, readTagged, Option.bind_eq_some_iff] at hread
    rcases hread with ⟨⟨tag, content⟩, htagged, read, hselect, hread⟩
    unfold selectVariant at hselect
    split at hselect
    next name htag =>
      have htag : tag = .string name := htag
      rw [htag] at htagged
      have hmem := mem_of_lookup hselect
      simp only [List.mem_cons, List.not_mem_nil, or_false, Prod.mk.injEq]
        at hmem
      rcases hmem with ⟨rfl, rfl⟩ | ⟨rfl, rfl⟩ | ⟨rfl, rfl⟩ | ⟨rfl, rfl⟩
        | ⟨rfl, rfl⟩ <;>
        simp only [Option.map_eq_some_iff, readEvidenceMatch_eq_some_iff,
          readU32_eq_some_iff, readString_eq_some_iff] at hread <;>
        rcases hread with ⟨m, ⟨-, floor, hshape, rfl, hfloor⟩, rfl⟩ <;>
        exact ⟨content, htagged, floor, hshape, hfloor⟩
    next => simp at hselect
    next => contradiction
  · rintro ⟨content, htagged, floor, hshape, hfloor⟩
    rw [readCondition, readTagged, htagged, Option.bind_some]
    cases condition <;>
      exact Option.map_eq_some_iff.mpr ⟨_, readEvidenceMatch_eq_some_iff.mpr
        ⟨_, floor, hshape, by simp [Condition.expectedJson], hfloor⟩, rfl⟩

theorem readCondition_exact :
    ReadsExactly readCondition DescribesCondition := by
  intro document condition
  rw [readCondition_eq_some_iff, DescribesCondition]
  constructor
  · rintro ⟨content, htagged, floor, hshape, hfloor⟩
    exact ⟨floor, (carries_tag_iff (by simp)).mpr
      ⟨content, htagged, hshape⟩, hfloor⟩
  · rintro ⟨floor, hshape, hfloor⟩
    rcases (carries_tag_iff (by simp)).mp hshape with
      ⟨content, htagged, hcontent⟩
    exact ⟨content, htagged, floor, hcontent, hfloor⟩

theorem readRule_exact : ReadsExactly readRule DescribesRule := by
  intro document rule
  have hdistinct (id effect resource action conditions : JsonValue) :
      ([("id", id), ("effect", effect), ("resource", resource),
        ("action", action), ("conditions", conditions)].map
          Prod.fst).Nodup := by
    simp
  constructor
  · intro hread
    simp only [readRule, Option.bind_eq_bind, Option.bind_eq_some_iff,
      required_eq_some_iff, Option.pure_def, Option.some.injEq] at hread
    rcases hread with ⟨found, hfields, id, ⟨_, hid, hreadId⟩, kind,
      ⟨effect, heffect, hreadEffect⟩, identity,
      ⟨resource, hresource, hreadResource⟩, asked,
      ⟨action, haction, hreadAction⟩, required,
      ⟨conditions, hconditions, hreadConditions⟩, rfl⟩
    rw [readString_eq_some_iff.mp hreadId] at hid
    refine ⟨effect, resource, action, conditions,
      (carries_iff (hdistinct ..)).mpr ⟨found, hfields, ?_⟩,
      (readEffect_exact effect kind).mp hreadEffect,
      (readResource_exact resource identity).mp hreadResource,
      (readRuleAction_exact action asked).mp hreadAction,
      (readVector_exact readCondition_exact conditions required).mp
        hreadConditions⟩
    simp [hid, heffect, hresource, haction, hconditions]
  · rintro ⟨effect, resource, action, conditions, hshape, heffect, hresource,
      haction, hconditions⟩
    rcases (carries_iff (hdistinct ..)).mp hshape with
      ⟨found, hfields, hfound⟩
    simp only [List.map_cons, List.map_nil] at hfields
    simp only [List.forall_mem_cons] at hfound
    have hreadEffect := (readEffect_exact effect _).mpr heffect
    have hreadResource := (readResource_exact resource _).mpr hresource
    have hreadAction := (readRuleAction_exact action _).mpr haction
    have hreadConditions :=
      (readVector_exact readCondition_exact conditions _).mpr hconditions
    simp [readRule, hfields, required, hfound, hreadEffect, hreadResource,
      hreadAction, hreadConditions]

theorem readPolicyDocument_exact :
    ReadsExactly readPolicyDocument DescribesPolicy := by
  intro document policy
  have htriple : readPolicyDocument document = some policy ↔ _ :=
    bind_required_triple_iff (by simp)
  simp only [htriple, readString_eq_some_iff, readU32_eq_some_iff,
    readVector_exact readRule_exact _ _]
  constructor
  · rintro ⟨-, -, rules, hshape, id, revision, found, rfl, rfl, hrules, rfl⟩
    exact ⟨rules, hshape, hrules⟩
  · rintro ⟨rules, hshape, hrules⟩
    exact ⟨_, _, rules, hshape, _, _, _, rfl, rfl, hrules, rfl⟩

/-! ## Validation of what was read -/

theorem PolicySet.fromVersioned_current (document : PolicyDocument) :
    fromVersioned (.current document) = fromDocument document := by
  rw [fromVersioned_eq]
  exact if_pos rfl

theorem PolicyDocument.check_ne_unsupportedVersion
    {document : PolicyDocument} {found expected : UInt16} :
    document.check ≠ .error (.unsupportedVersion found expected) := by
  intro hcheck
  rw [check_eq_error_iff] at hcheck
  rcases hcheck with ⟨-, herror⟩ | ⟨-, hfault⟩
  · contradiction
  · rcases hfault with ⟨before, rule, after, -, -, violation, -, herror⟩
    cases violation <;> contradiction

end Eltanin.Core

namespace Eltanin.Agent

open Json Eltanin.Core TextLines FaultScan
open Eltanin.Linux (readToString)

/-! ## Loading -/

inductive PolicyLoadError where
  | io (reason : String)
  | json (reason : String)
  | invalid (error : PolicyError)
  deriving DecidableEq, Repr

def loadPolicy (text : JsonText) (file : Except String (List UInt8)) :
    Except PolicyLoadError PolicySet :=
  match readToString file with
  | .error reason => .error (.io reason)
  | .ok contents =>
      match (text.parse (encode contents)).bind
          (readVersioned readPolicyDocument) with
      | none => .error (.json (text.errorText contents))
      | some envelope =>
          match PolicySet.fromVersioned envelope with
          | .error error => .error (.invalid error)
          | .ok policy => .ok policy

/-- The bytes of the file are a text. -/
def Legible (file : Except String (List UInt8)) : Prop :=
  ∃ bytes, file = .ok bytes ∧ (decode? bytes).isSome

/-- The document in the file describes this policy, in this version. -/
def HoldsPolicy (text : JsonText) (file : Except String (List UInt8))
    (envelope : Versioned PolicyDocument) : Prop :=
  ∃ bytes document, file = .ok bytes ∧ (decode? bytes).isSome ∧
    text.parse bytes = some document ∧
    DescribesVersioned DescribesPolicy document envelope

/-- A policy is loaded from just the files which hold a well-formed one in
the current version, and each refusal names what is wrong. -/
structure LoadsExactly (text : JsonText) (file : Except String (List UInt8)) :
    Prop where
  accepts : ∀ document, (∃ policy : PolicySet, policy.document = document ∧
      loadPolicy text file = .ok policy) ↔
    HoldsPolicy text file (.current document) ∧ document.WellFormed
  invalid : ∀ error, (∀ found expected, error ≠ .unsupportedVersion found
      expected) → (loadPolicy text file = .error (.invalid error) ↔
    ∃ document, HoldsPolicy text file (.current document) ∧
      ((document.id.id = "" ∧ error = .emptyPolicyId) ∨
        (document.id.id ≠ "" ∧
          FirstFault Rule.Offends document.rules error)))
  outdated : ∀ found expected, loadPolicy text file =
      .error (.invalid (.unsupportedVersion found expected)) ↔
    expected = domainSchemaVersion ∧ found ≠ domainSchemaVersion ∧
      ∃ document, HoldsPolicy text file ⟨found, document⟩
  malformed : (∃ reason, loadPolicy text file = .error (.json reason)) ↔
    Legible file ∧ ∀ envelope, ¬HoldsPolicy text file envelope
  unread : (∃ reason, loadPolicy text file = .error (.io reason)) ↔
    ¬Legible file

section Loading

variable {text : JsonText} {file : Except String (List UInt8)}
  {envelope : Versioned PolicyDocument} {document : PolicyDocument}

theorem legible_iff : Legible file ↔
    ∃ contents, readToString file = .ok contents ∧
      file = .ok (encode contents) := by
  constructor
  · rintro ⟨bytes, rfl, hdecode⟩
    rcases Option.isSome_iff_exists.mp hdecode with ⟨contents, hdecode⟩
    refine ⟨contents, by rw [readToString, hdecode], ?_⟩
    rw [decode?_eq_some_iff.mp hdecode]
  · rintro ⟨contents, -, rfl⟩
    exact ⟨_, rfl, by rw [decode?_encode, Option.isSome_some]⟩

theorem HoldsPolicy.unique {other : Versioned PolicyDocument}
    (hholds : HoldsPolicy text file envelope)
    (hother : HoldsPolicy text file other) : envelope = other := by
  rcases hholds with ⟨bytes, value, rfl, -, hparse, hdescribes⟩
  rcases hother with ⟨_, _, hsame, -, hfound, hother⟩
  rw [← Except.ok.inj hsame, hparse, Option.some.injEq] at hfound
  subst hfound
  exact (readVersioned_exact readPolicyDocument_exact).unique hdescribes
    hother

theorem loadPolicy_of_not_legible (hillegible : ¬Legible file) :
    ∃ reason, loadPolicy text file = .error (.io reason) := by
  cases hread : readToString file with
  | error reason => exact ⟨reason, by rw [loadPolicy, hread]⟩
  | ok contents =>
      unfold readToString at hread
      split at hread
      next => contradiction
      next bytes =>
        split at hread
        next => contradiction
        next found hdecode =>
          exact (hillegible ⟨bytes, rfl,
            by rw [hdecode, Option.isSome_some]⟩).elim

theorem loadPolicy_of_holds (hholds : HoldsPolicy text file envelope) :
    loadPolicy text file =
      match PolicySet.fromVersioned envelope with
      | .error error => .error (.invalid error)
      | .ok policy => .ok policy := by
  rcases hholds with ⟨bytes, value, rfl, hdecode, hparse, hdescribes⟩
  rcases Option.isSome_iff_exists.mp hdecode with ⟨contents, hcontents⟩
  have hbytes := decode?_eq_some_iff.mp hcontents
  have hread := (readVersioned_exact readPolicyDocument_exact value
    envelope).mpr hdescribes
  rw [loadPolicy, readToString, hcontents]
  simp only [← hbytes, hparse, Option.bind_some, hread]

theorem loadPolicy_of_not_holds (hlegible : Legible file)
    (hnone : ∀ envelope, ¬HoldsPolicy text file envelope) :
    ∃ reason, loadPolicy text file = .error (.json reason) := by
  rcases legible_iff.mp hlegible with ⟨contents, hcontents, hfile⟩
  cases hread : (text.parse (encode contents)).bind
      (readVersioned readPolicyDocument) with
  | none =>
      refine ⟨text.errorText contents, ?_⟩
      rw [loadPolicy, hcontents]
      simp only [hread]
  | some envelope =>
      rcases Option.bind_eq_some_iff.mp hread with ⟨value, hparse, hvalue⟩
      exact (hnone envelope ⟨_, value, hfile,
        by rw [decode?_encode, Option.isSome_some], hparse,
        (readVersioned_exact readPolicyDocument_exact value envelope).mp
          hvalue⟩).elim

/-- What a load comes to, in one of its stages. -/
theorem loadPolicy_stage (text : JsonText)
    (file : Except String (List UInt8)) :
    (¬Legible file ∧ ∃ reason, loadPolicy text file = .error (.io reason)) ∨
      (Legible file ∧ (∀ envelope, ¬HoldsPolicy text file envelope) ∧
        ∃ reason, loadPolicy text file = .error (.json reason)) ∨
      ∃ envelope, HoldsPolicy text file envelope ∧
        loadPolicy text file =
          match PolicySet.fromVersioned envelope with
          | .error error => .error (.invalid error)
          | .ok policy => .ok policy := by
  by_cases hlegible : Legible file
  · by_cases hholds : ∃ envelope, HoldsPolicy text file envelope
    · rcases hholds with ⟨envelope, hholds⟩
      exact .inr (.inr ⟨envelope, hholds, loadPolicy_of_holds hholds⟩)
    · rw [not_exists] at hholds
      exact .inr (.inl ⟨hlegible, hholds,
        loadPolicy_of_not_holds hlegible hholds⟩)
  · exact .inl ⟨hlegible, loadPolicy_of_not_legible hlegible⟩

theorem loadPolicy_eq_ok_iff {policy : PolicySet} :
    loadPolicy text file = .ok policy ↔
      HoldsPolicy text file (.current policy.document) := by
  constructor
  · intro hload
    rcases loadPolicy_stage text file with
      ⟨-, reason, hfailed⟩ | ⟨-, -, reason, hfailed⟩ | ⟨envelope, hholds,
        hstage⟩
    · simp [hfailed] at hload
    · simp [hfailed] at hload
    · rw [hstage, PolicySet.fromVersioned_eq] at hload
      by_cases hversion : envelope.version = domainSchemaVersion
      · rw [if_pos hversion] at hload
        cases hdocument : PolicySet.fromDocument envelope.payload with
        | error error => simp [hdocument] at hload
        | ok found =>
            rw [hdocument] at hload
            cases hload
            rw [PolicySet.fromDocument_eq_ok_iff] at hdocument
            have henvelope : envelope = .current policy.document := by
              rw [Versioned.current, hdocument, ← hversion]
            rw [← henvelope]
            exact hholds
      · simp [hversion] at hload
  · intro hholds
    have hdocument := PolicySet.fromDocument_eq_ok_iff.mpr
      (rfl : policy.document = policy.document)
    rw [loadPolicy_of_holds hholds, PolicySet.fromVersioned_current,
      hdocument]

theorem loadPolicy_eq_invalid_iff {error : PolicyError} :
    loadPolicy text file = .error (.invalid error) ↔
      ∃ envelope, HoldsPolicy text file envelope ∧
        PolicySet.fromVersioned envelope = .error error := by
  constructor
  · intro hload
    rcases loadPolicy_stage text file with
      ⟨-, reason, hfailed⟩ | ⟨-, -, reason, hfailed⟩ | ⟨envelope, hholds,
        hstage⟩
    · simp [hfailed] at hload
    · simp [hfailed] at hload
    · refine ⟨envelope, hholds, ?_⟩
      rw [hstage] at hload
      cases hresult : PolicySet.fromVersioned envelope with
      | error found => simpa [hresult] using hload
      | ok policy => simp [hresult] at hload
  · rintro ⟨envelope, hholds, hresult⟩
    rw [loadPolicy_of_holds hholds, hresult]

end Loading

theorem loadPolicy_loadsExactly (text : JsonText)
    (file : Except String (List UInt8)) : LoadsExactly text file where
  accepts document := by
    rw [← PolicyDocument.check_eq_ok_iff]
    constructor
    · rintro ⟨policy, rfl, hload⟩
      exact ⟨loadPolicy_eq_ok_iff.mp hload, policy.accepted⟩
    · rintro ⟨hholds, hcheck⟩
      exact ⟨⟨document, hcheck⟩, rfl, loadPolicy_eq_ok_iff.mpr hholds⟩
  invalid error hother := by
    rw [loadPolicy_eq_invalid_iff]
    constructor
    · rintro ⟨⟨version, document⟩, hholds, hresult⟩
      rw [PolicySet.fromVersioned_eq] at hresult
      by_cases hversion : version = domainSchemaVersion
      · subst hversion
        rw [if_pos rfl, PolicySet.fromDocument_eq_error_iff,
          PolicyDocument.check_eq_error_iff] at hresult
        exact ⟨document, hholds, hresult⟩
      · rw [if_neg hversion, Except.error.injEq] at hresult
        exact (hother _ _ hresult.symm).elim
    · rintro ⟨document, hholds, hfault⟩
      refine ⟨_, hholds, ?_⟩
      rw [PolicySet.fromVersioned_current,
        PolicySet.fromDocument_eq_error_iff,
        PolicyDocument.check_eq_error_iff]
      exact hfault
  outdated found expected := by
    rw [loadPolicy_eq_invalid_iff]
    constructor
    · rintro ⟨⟨version, document⟩, hholds, hresult⟩
      rw [PolicySet.fromVersioned_eq] at hresult
      by_cases hversion : version = domainSchemaVersion
      · rw [if_pos hversion, PolicySet.fromDocument_eq_error_iff] at hresult
        exact (PolicyDocument.check_ne_unsupportedVersion hresult).elim
      · rw [if_neg hversion] at hresult
        cases hresult
        exact ⟨rfl, hversion, document, hholds⟩
    · rintro ⟨rfl, hversion, document, hholds⟩
      exact ⟨_, hholds, by rw [PolicySet.fromVersioned_eq, if_neg hversion]⟩
  malformed := by
    constructor
    · rintro ⟨reason, hload⟩
      rcases loadPolicy_stage text file with
        ⟨-, _, hfailed⟩ | ⟨hlegible, hnone, -⟩ | ⟨envelope, hholds, hstage⟩
      · simp [hfailed] at hload
      · exact ⟨hlegible, hnone⟩
      · rw [hstage] at hload
        cases hresult : PolicySet.fromVersioned envelope <;>
          simp [hresult] at hload
    · rintro ⟨hlegible, hnone⟩
      exact loadPolicy_of_not_holds hlegible hnone
  unread := by
    constructor
    · rintro ⟨reason, hload⟩ hlegible
      rcases loadPolicy_stage text file with
        ⟨hillegible, -⟩ | ⟨-, -, _, hfailed⟩ | ⟨envelope, hholds, hstage⟩
      · exact hillegible hlegible
      · simp [hfailed] at hload
      · rw [hstage] at hload
        cases hresult : PolicySet.fromVersioned envelope <;>
          simp [hresult] at hload
    · exact loadPolicy_of_not_legible

/-! ## Saving -/

/-- The bytes of a policy which is written in the current version. -/
def savedPolicy (text : JsonText) (policy : PolicySet) : List UInt8 :=
  encode (text.print
    (versionedJson policyDocumentJson (.current policy.document)))

/-- A policy which has been written is loaded as what it was. -/
theorem loadPolicy_savedPolicy {text : JsonText} {policy : PolicySet}
    (hreads : text.Reads
      (versionedJson policyDocumentJson (.current policy.document))) :
    loadPolicy text (.ok (savedPolicy text policy)) = .ok policy := by
  rw [loadPolicy_eq_ok_iff]
  refine ⟨_, _, rfl, ?_, hreads, ?_⟩
  · rw [savedPolicy, decode?_encode, Option.isSome_some]
  · exact (readVersioned_exact readPolicyDocument_exact _ _).mp
      (readVersioned_versionedJson (readPolicyDocument_policyDocumentJson _))

end Eltanin.Agent
