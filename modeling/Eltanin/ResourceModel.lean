import Mathlib.Data.Finset.Basic

/-!
# Protected resources and compute requests

The vendor-neutral vocabulary of `eltanin-core`: which resource a request
names, what it asks for, and what a backend answers when it is asked to
enforce an authorization.  Vendor and kind are opaque tags; nothing here
depends on a concrete accelerator.
-/

namespace Eltanin.Core

structure ResourceVendor where
  tag : String
  deriving DecidableEq, Repr

structure ResourceKind where
  tag : String
  deriving DecidableEq, Repr

structure ResourceIdentity where
  vendor : ResourceVendor
  kind : ResourceKind
  localId : String
  deriving DecidableEq, Repr

inductive Capability where
  | discoverResource
  | observeResource
  | observeWorkload
  | attributeWorkload
  | authorize
  | controlledLaunch
  | deviceEnforce
  | deviceRevoke
  | attest
  deriving DecidableEq, Repr

/-- `unknown` is what an unrecognized action of a well-formed request decodes
to; no validated rule names it. -/
inductive Action where
  | compute
  | unknown
  deriving DecidableEq, Repr

structure ComputeRequest where
  resource : ResourceIdentity
  action : Action
  deriving DecidableEq, Repr

theorem ComputeRequest.eq_iff {first second : ComputeRequest} :
    first = second ↔
      first.resource = second.resource ∧ first.action = second.action := by
  cases first
  cases second
  simp

inductive EnforcementResult where
  | allowed
  | denied (reason : String)
  | unsupported (capability : Capability)
  | error (message : String)
  deriving DecidableEq, Repr

end Eltanin.Core

namespace Eltanin.Backend

open Eltanin.Core

/-- Why a backend operation could not be attempted, as opposed to what an
attempt resulted in. -/
inductive BackendError where
  | unsupported (capability : Capability)
  | unavailable (resource : ResourceIdentity)
  | permissionDenied
  | transient (message : String)
  | invariant (message : String)
  deriving DecidableEq, Repr

/-- What `ComputeBackend::enforce` and `ComputeBackend::revoke` return. -/
abbrev BackendReply := Except BackendError EnforcementResult

end Eltanin.Backend
