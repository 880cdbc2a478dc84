import Eltanin.KeyedStore
import Eltanin.LeaseModel

/-!
# Backends

What a backend supports for a resource is data, and a capability nobody has
evaluated is not supported.  The fake backend keeps its resources, scripted
enforcement results and a count of revocations in maps, each behind a lock of
its own; the Apple backend keeps nothing.  An enforcement by the fake backend
observes the resource first and consults the script afterwards, so the two
halves are functions of their own.
-/

namespace Eltanin.Core

open KeyedStore

inductive SupportState where
  | supported
  | partially
  | unsupported
  | notEvaluated
  deriving DecidableEq, Repr

def SupportState.isProven : SupportState → Bool
  | .supported => true
  | .partially | .unsupported | .notEvaluated => false

structure ResourceCapabilities where
  support : Store Capability SupportState
  deriving DecidableEq

namespace ResourceCapabilities

/-- Collected into a map, so that a later entry for the same capability
replaces an earlier one. -/
def fromStates (states : List (Capability × SupportState)) :
    ResourceCapabilities where
  support := states.foldl
    (fun support entry => support.insert entry.1 entry.2) ∅

def new (supported : List Capability) : ResourceCapabilities :=
  fromStates (supported.map fun capability => (capability, .supported))

def stateOf (self : ResourceCapabilities) (capability : Capability) :
    SupportState :=
  (self.support.lookup capability).getD .notEvaluated

def supports (self : ResourceCapabilities) (capability : Capability) :
    Bool :=
  (self.stateOf capability).isProven

theorem supports_eq_true_iff {self : ResourceCapabilities}
    {capability : Capability} :
    self.supports capability = true ↔
      self.stateOf capability = .supported := by
  unfold supports
  cases self.stateOf capability <;> simp [SupportState.isProven]

end ResourceCapabilities

inductive AcceleratorMemory where
  | dedicated (totalBytes : UInt64)
  | unified
  | notReportable
  deriving DecidableEq, Repr

structure ProtectedResource where
  identity : ResourceIdentity
  capabilities : ResourceCapabilities
  memory : AcceleratorMemory
  deriving DecidableEq

end Eltanin.Core

namespace Eltanin.Backend

open Eltanin.Core KeyedStore

/-! ## The fake backend -/

/-- The count of revocations is behind a lock which a failing increment
poisons. -/
structure FakeBackend where
  resources : Store ResourceIdentity ProtectedResource
  scriptedEnforcement : Store ResourceIdentity EnforcementResult
  revokeCalls : Store ResourceIdentity UInt32
  revokeCallsPoisoned : Bool
  deriving DecidableEq

namespace FakeBackend

def new : FakeBackend := ⟨∅, ∅, ∅, false⟩

def insert (self : FakeBackend) (resource : ProtectedResource) :
    FakeBackend :=
  { self with resources := self.resources.insert resource.identity resource }

/-- The first half of `remove`. -/
def removeResource (self : FakeBackend) (identity : ResourceIdentity) :
    FakeBackend :=
  { self with resources := self.resources.erase identity }

/-- The second half of `remove`, under another lock. -/
def removeScript (self : FakeBackend) (identity : ResourceIdentity) :
    FakeBackend :=
  { self with
    scriptedEnforcement := self.scriptedEnforcement.erase identity }

def remove (self : FakeBackend) (identity : ResourceIdentity) :
    FakeBackend :=
  (self.removeResource identity).removeScript identity

def scriptEnforcement (self : FakeBackend) (identity : ResourceIdentity)
    (result : EnforcementResult) : FakeBackend :=
  { self with
    scriptedEnforcement := self.scriptedEnforcement.insert identity result }

def revokeCallCount (self : FakeBackend) (identity : ResourceIdentity) :
    UInt32 :=
  (self.revokeCalls.lookup identity).getD 0

def observe (self : FakeBackend) (resource : ResourceIdentity) :
    Except BackendError ProtectedResource :=
  match self.resources.lookup resource with
  | some found => .ok found
  | none => .error (.unavailable resource)

/-- What `enforce` makes of its observation.  The capability comes before the
script, which can therefore not stand in for it. -/
def enforceObserved (self : FakeBackend) (request : ComputeRequest)
    (observed : Except BackendError ProtectedResource) : BackendReply :=
  match observed with
  | .error error => .error error
  | .ok resource =>
      if resource.capabilities.supports .deviceEnforce = false then
        .ok (.unsupported .deviceEnforce)
      else
        match self.scriptedEnforcement.lookup request.resource with
        | some scripted => .ok scripted
        | none => .ok .allowed

def enforce (self : FakeBackend) (request : ComputeRequest) :
    BackendReply :=
  self.enforceObserved request (self.observe request.resource)

def revokeObserved (observed : Except BackendError ProtectedResource) :
    BackendReply :=
  match observed with
  | .error error => .error error
  | .ok resource =>
      if resource.capabilities.supports .deviceRevoke = false then
        .ok (.unsupported .deviceRevoke)
      else .ok .allowed

/-- The count is a `u32` whose increment is checked for overflow. -/
def revoke (self : FakeBackend) (resource : ResourceIdentity) :
    FakeBackend × Completion BackendReply :=
  if self.revokeCallsPoisoned = true then (self, .panicked)
  else if (self.revokeCallCount resource).toNat + 1 < UInt32.size then
    ({ self with
        revokeCalls := self.revokeCalls.insert resource
          (self.revokeCallCount resource + 1) },
      .returned (revokeObserved (self.observe resource)))
  else ({ self with revokeCallsPoisoned := true }, .panicked)

theorem revoke_fst_resources (self : FakeBackend)
    (resource : ResourceIdentity) :
    (self.revoke resource).1.resources = self.resources := by
  unfold revoke
  split
  · rfl
  split
  · rfl
  · rfl

theorem revoke_fst_scriptedEnforcement (self : FakeBackend)
    (resource : ResourceIdentity) :
    (self.revoke resource).1.scriptedEnforcement =
      self.scriptedEnforcement := by
  unfold revoke
  split
  · rfl
  split
  · rfl
  · rfl

theorem observe_eq_ok_iff {self : FakeBackend}
    {resource : ResourceIdentity} {found : ProtectedResource} :
    self.observe resource = .ok found ↔
      self.resources.lookup resource = some found := by
  unfold observe
  cases self.resources.lookup resource <;> simp

/-- Whatever is scripted, nothing is allowed without a supported device
enforcement. -/
theorem supported_of_enforceObserved_eq_allowed {self : FakeBackend}
    {request : ComputeRequest}
    {observed : Except BackendError ProtectedResource}
    (hallowed : self.enforceObserved request observed = .ok .allowed) :
    ∃ resource, observed = .ok resource ∧
      resource.capabilities.stateOf .deviceEnforce = .supported := by
  cases observed with
  | error error => simp [enforceObserved] at hallowed
  | ok resource =>
      refine ⟨resource, rfl, ?_⟩
      rw [← ResourceCapabilities.supports_eq_true_iff]
      by_contra hsupports
      rw [Bool.not_eq_true] at hsupports
      simp [enforceObserved, hsupports] at hallowed

end FakeBackend

/-! ## The Apple backend -/

namespace AppleBackend

def enforce (_request : ComputeRequest) : BackendReply :=
  .ok (.unsupported .deviceEnforce)

def revoke (_resource : ResourceIdentity) : BackendReply :=
  .ok (.unsupported .deviceRevoke)

end AppleBackend

end Eltanin.Backend
