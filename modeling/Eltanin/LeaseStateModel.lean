import Eltanin.KeyedStore
import Eltanin.LeaseModel

/-!
# The lease store of one authorization handler

What the handler keeps behind its lock: one issuer, the outstanding leases by
their id, and a count of slots reserved for leases which have been issued but
whose enforcement is still pending.  A poisoned lock is recovered, so a panic
under the lock leaves the state as it was at that point.
-/

namespace Eltanin.Agent

open Eltanin.Core KeyedStore

structure LeaseState where
  issuer : LeaseIssuer
  leases : Store LeaseId ComputeLease
  maxOutstanding : ℕ
  reserved : ℕ
  deriving DecidableEq

namespace LeaseState

def new (issuer : LeaseIssuer) (maxOutstanding : ℕ) : LeaseState :=
  ⟨issuer, ∅, maxOutstanding, 0⟩

def prune (self : LeaseState) (now : MonotonicTime) : LeaseState :=
  { self with leases :=
      self.leases.retain fun _ lease => decide (now < lease.expiresAt) }

def IsAtCapacity (self : LeaseState) : Prop :=
  self.maxOutstanding ≤ self.leases.size + self.reserved

instance (self : LeaseState) : Decidable self.IsAtCapacity :=
  inferInstanceAs
    (Decidable (self.maxOutstanding ≤ self.leases.size + self.reserved))

def reserve (self : LeaseState) : LeaseState :=
  { self with reserved := self.reserved + 1 }

/-- A saturating subtraction in the source as well. -/
def releaseReservation (self : LeaseState) : LeaseState :=
  { self with reserved := self.reserved - 1 }

def insert (self : LeaseState) (lease : ComputeLease) : LeaseState :=
  { self.releaseReservation with
    leases := self.leases.insert lease.id lease }

def get (self : LeaseState) (id : LeaseId) : Option ComputeLease :=
  self.leases.lookup id

def remove (self : LeaseState) (id : LeaseId) : LeaseState :=
  { self with leases := self.leases.erase id }

def anyOtherLiveLeaseForSameResource (self : LeaseState) (id : LeaseId) :
    Bool :=
  match self.get id with
  | none => false
  | some released =>
      self.leases.any fun otherId other =>
        decide (otherId ≠ id ∧
          other.origin.request.resource = released.origin.request.resource)

def revoke (self : LeaseState) (id : LeaseId) :
    LeaseState × RevocationOutcome :=
  ({ self with issuer := (self.issuer.revoke id).1 },
    (self.issuer.revoke id).2)

/-! ## What each operation changes -/

variable {self : LeaseState} {id : LeaseId} {lease : ComputeLease}
  {now : MonotonicTime}

theorem get_new (issuer : LeaseIssuer) (maxOutstanding : ℕ) :
    (new issuer maxOutstanding).get id = none := by
  simp [get, new]

theorem get_prune_eq_some_iff :
    (self.prune now).get id = some lease ↔
      self.get id = some lease ∧ now < lease.expiresAt := by
  simp [get, prune, Store.lookup_retain_eq_some_iff]

theorem get_insert_eq_some_iff {other : ComputeLease} :
    (self.insert lease).get id = some other ↔
      (id = lease.id ∧ lease = other) ∨
        (id ≠ lease.id ∧ self.get id = some other) :=
  Store.lookup_insert_eq_some_iff

theorem get_remove_eq_some_iff {removed : LeaseId} :
    (self.remove removed).get id = some lease ↔
      id ≠ removed ∧ self.get id = some lease :=
  Store.lookup_erase_eq_some_iff

theorem size_prune_le (self : LeaseState) (now : MonotonicTime) :
    (self.prune now).leases.size ≤ self.leases.size :=
  Store.size_retain_le _ _

theorem size_insert_le (self : LeaseState) (lease : ComputeLease) :
    (self.insert lease).leases.size ≤ self.leases.size + 1 :=
  Store.size_insert_le _ _ _

theorem size_remove_le (self : LeaseState) (id : LeaseId) :
    (self.remove id).leases.size ≤ self.leases.size :=
  Store.size_erase_le _ _

/-- While some other lease on the resource of `lease` is stored, releasing
`lease` must not tear that resource down. -/
theorem anyOtherLiveLeaseForSameResource_eq_false_iff
    (hstored : self.get id = some lease) :
    self.anyOtherLiveLeaseForSameResource id = false ↔
      ∀ otherId other, self.get otherId = some other → otherId ≠ id →
        other.origin.request.resource ≠ lease.origin.request.resource := by
  rw [← Bool.not_eq_true]
  unfold anyOtherLiveLeaseForSameResource
  rw [hstored]
  simp only [Store.any_eq_true_iff, decide_eq_true_eq, get]
  constructor
  · intro hnone otherId other hother hne hsame
    exact hnone ⟨otherId, other, hother, hne, hsame⟩
  · intro hall hsome
    rcases hsome with ⟨otherId, other, hother, hne, hsame⟩
    exact hall otherId other hother hne hsame

end LeaseState

end Eltanin.Agent
