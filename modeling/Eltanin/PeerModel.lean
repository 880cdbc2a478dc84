import Eltanin.IdentityModel

/-!
# Connected peers

A peer is the credential the kernel reported for a connection together with
what was independently observed about the process, and a verdict on whether
the two agree.  Only a consistent peer may be used as evidence for an
authorization.
-/

namespace Eltanin.Core

structure PeerCredential where
  pid : UInt32
  effectiveUid : UInt32
  effectiveGid : UInt32
  deriving DecidableEq, Repr

inductive PeerConsistency where
  | consistent
  | credentialDivergence (peerEffectiveUid : UInt32)
      (observedRealUid observedEffectiveUid : Evidence UInt32)
  | peerUnmapped
  | indeterminate (reason : String)
  deriving DecidableEq, Repr

structure PeerContext where
  credential : PeerCredential
  consistency : PeerConsistency
  observed : ExecutionContext
  deriving DecidableEq, Repr

/-- The gate which every use of a peer as authorization evidence passes. -/
def PeerContext.authorizable (peer : PeerContext) : Option ExecutionContext :=
  match peer.consistency with
  | .consistent => some peer.observed
  | _ => none

theorem PeerContext.authorizable_eq_some_iff
    {peer : PeerContext} {observed : ExecutionContext} :
    peer.authorizable = some observed ↔
      peer.consistency = .consistent ∧ peer.observed = observed := by
  unfold authorizable
  cases peer.consistency <;> simp

end Eltanin.Core
