import Eltanin.CallTransitions
import Eltanin.EventLog
import Mathlib.Data.Finset.Card
import Mathlib.Logic.Relation

/-!
# The lease ledger

The agent seen only through its leases: the locked state, which lease each call
holds between issue and settlement, and the transcript.  A ledger moves in
single entries; no clock, backend or phase is left.  The invariants of the
store, the issuer and the reservations are proved here, one entry at a time.
-/

namespace Eltanin.Agent

open Eltanin.Core Backend Protocol EventLog

def Happening.IsQuiet : Happening → Prop
  | .enforced _ _ => True
  | .timed _ => True
  | .backendRevoked _ _ => True
  | .recorded _ => True
  | _ => False

theorem Happening.IsQuiet.ne_issued {event : Happening}
    (hquiet : event.IsQuiet) (lease : ComputeLease) :
    event ≠ .issued lease := by
  intro heq
  rw [heq] at hquiet
  exact hquiet

theorem Happening.IsQuiet.ne_released {event : Happening}
    (hquiet : event.IsQuiet) (id : LeaseId) : event ≠ .released id := by
  intro heq
  rw [heq] at hquiet
  exact hquiet

def Happening.Drops (lease : ComputeLease) : Happening → Prop
  | .pruned now => lease.expiresAt ≤ now
  | .released id => id = lease.id
  | _ => False

/-- The lease was inserted and neither pruned nor released since. -/
def Outstanding (transcript : List (ℕ × Happening)) (lease : ComputeLease) :
    Prop :=
  Since (fun event => event.2 = .inserted lease)
    (fun event => event.2.Drops lease) transcript

structure Ledger where
  state : LeaseState
  held : ℕ → Option ComputeLease
  transcript : List (ℕ × Happening)

namespace Ledger

/-- Append an entry of call `i`, which then holds the given lease. -/
def enter (ledger : Ledger) (i : ℕ) (state : LeaseState)
    (held : Option ComputeLease) (event : Happening) : Ledger where
  state := state
  held := Function.update ledger.held i held
  transcript := ledger.transcript ++ [(i, event)]

end Ledger

inductive LedgerStep (handler : AuthorizationHandler) (ledger : Ledger) :
    Ledger → Prop
  | note {i : ℕ} {event : Happening} (hquiet : event.IsQuiet) :
      LedgerStep handler ledger
        (ledger.enter i ledger.state (ledger.held i) event)
  | prune {i : ℕ} {now : MonotonicTime} :
      LedgerStep handler ledger
        (ledger.enter i (ledger.state.prune now) (ledger.held i)
          (.pruned now))
  | issue {i : ℕ} {provenance : ProvenanceRecord} {now : MonotonicTime}
      {issuer : LeaseIssuer} {lease : ComputeLease}
      (hfree : ledger.held i = none)
      (hroom : ¬ledger.state.IsAtCapacity)
      (hissued : ledger.state.issuer.Issued handler.policy provenance now
        handler.config.leaseTtl issuer lease) :
      LedgerStep handler ledger
        (ledger.enter i
          ({ ledger.state with issuer := issuer } : LeaseState).reserve
          (some lease) (.issued lease))
  | insert {i : ℕ} {lease : ComputeLease}
      (hheld : ledger.held i = some lease) :
      LedgerStep handler ledger
        (ledger.enter i (ledger.state.insert lease) none (.inserted lease))
  | compensate {i : ℕ} {lease : ComputeLease}
      (hheld : ledger.held i = some lease) :
      LedgerStep handler ledger
        (ledger.enter i
          (ledger.state.revoke lease.id).1.releaseReservation none
          (.compensated lease.id))
  | release {i : ℕ} {id : LeaseId} {lease : ComputeLease}
      (hstored : ledger.state.get id = some lease) :
      LedgerStep handler ledger
        (ledger.enter i ((ledger.state.revoke id).1.remove id)
          (ledger.held i) (.released id))

/-! ## Entries and what they leave alone -/

namespace Ledger

variable {ledger : Ledger} {i j : ℕ} {state : LeaseState}
  {held : Option ComputeLease} {event : Happening} {lease : ComputeLease}

theorem held_enter_eq_some_iff :
    (ledger.enter i state held event).held j = some lease ↔
      (j = i ∧ held = some lease) ∨ (j ≠ i ∧ ledger.held j = some lease) := by
  by_cases hj : j = i
  · subst hj
    simp [enter]
  · simp [enter, hj]

theorem held_enter_none_eq_some_iff :
    (ledger.enter i state none event).held j = some lease ↔
      j ≠ i ∧ ledger.held j = some lease := by
  rw [held_enter_eq_some_iff]
  simp

theorem held_enter_same :
    (ledger.enter i state (ledger.held i) event).held = ledger.held :=
  Function.update_eq_self i ledger.held

theorem outstanding_enter_iff :
    Outstanding (ledger.enter i state held event).transcript lease ↔
      event = .inserted lease ∨
        Outstanding ledger.transcript lease ∧ ¬event.Drops lease :=
  since_append_singleton_iff

end Ledger

section Revoke

variable {state : LeaseState} {id : LeaseId} {sequence : UInt64}

theorem revoke_issuer_instanceId :
    (state.revoke id).1.issuer.instanceId = state.issuer.instanceId := by
  rw [LeaseState.revoke]
  rcases state.issuer.revoke_cases id with
    ⟨-, -, -, -, hnext⟩ | ⟨-, hnext⟩ <;> rw [hnext]

theorem revoke_issuer_nextSequence :
    (state.revoke id).1.issuer.nextSequence = state.issuer.nextSequence := by
  rw [LeaseState.revoke]
  rcases state.issuer.revoke_cases id with
    ⟨-, -, -, -, hnext⟩ | ⟨-, hnext⟩ <;> rw [hnext]

theorem mem_revoke_issuer_revoked_iff
    (hissuer : id.issuer = state.issuer.instanceId)
    (hissued : id.sequence.toNat < state.issuer.nextSequence.toNat) :
    sequence ∈ (state.revoke id).1.issuer.revoked ↔
      sequence = id.sequence ∨ sequence ∈ state.issuer.revoked := by
  rw [LeaseState.revoke]
  rcases state.issuer.revoke_cases id with
    ⟨-, -, -, -, hnext⟩ | ⟨hnot, hnext⟩
  · rw [hnext, Finset.mem_insert]
  · have hrevoked : id.sequence ∈ state.issuer.revoked := by
      by_contra hlive
      apply hnot
      rw [LeaseIssuer.revoke_of_live hissuer hissued hlive]
    rw [hnext]
    constructor
    · exact Or.inr
    · intro hcases
      rcases hcases with heq | hmem
      · exact heq ▸ hrevoked
      · exact hmem

end Revoke

/-! ## The issuer and what was issued -/

/-- The id was given out by this issuer. -/
def HandedOut (issuer : LeaseIssuer) (id : LeaseId) : Prop :=
  id.issuer = issuer.instanceId ∧
    id.sequence.toNat < issuer.nextSequence.toNat

def issuedId : ℕ × Happening → Option LeaseId
  | (_, .issued lease) => some lease.id
  | _ => none

def releasedId : ℕ × Happening → Option LeaseId
  | (_, .released id) => some id
  | _ => none

theorem issuedId_eq_some_iff {event : ℕ × Happening} {id : LeaseId} :
    issuedId event = some id ↔
      ∃ i lease, event = (i, .issued lease) ∧ lease.id = id := by
  obtain ⟨i, happening⟩ := event
  cases happening <;> simp [issuedId]

theorem releasedId_eq_some_iff {event : ℕ × Happening} {id : LeaseId} :
    releasedId event = some id ↔ ∃ i, event = (i, .released id) := by
  obtain ⟨i, happening⟩ := event
  cases happening <;> simp [releasedId]

/-- No id is issued twice or released twice, and a released id is revoked. -/
structure IssuerInvariant (handler : AuthorizationHandler)
    (issuer : LeaseIssuer) (transcript : List (ℕ × Happening)) : Prop where
  instanceId : issuer.instanceId = handler.instanceId
  issued : ∀ {i lease}, (i, .issued lease) ∈ transcript →
    HandedOut issuer lease.id
  issued_distinct : DistinctKeys issuedId transcript
  revoked_lt : ∀ sequence ∈ issuer.revoked,
    sequence.toNat < issuer.nextSequence.toNat
  released : ∀ {i id}, (i, .released id) ∈ transcript →
    id.issuer = issuer.instanceId ∧ id.sequence ∈ issuer.revoked
  released_distinct : DistinctKeys releasedId transcript

section IssuerInvariant

variable {handler : AuthorizationHandler} {issuer : LeaseIssuer}
  {transcript : List (ℕ × Happening)} {i : ℕ} {event : Happening}

theorem mem_append_entry_iff {j : ℕ} {other : Happening} :
    (j, other) ∈ transcript ++ [(i, event)] ↔
      (j, other) ∈ transcript ∨ j = i ∧ other = event := by
  simp

theorem issuedId_eq_none (hissued : ∀ lease, event ≠ .issued lease) :
    issuedId (i, event) = none := by
  cases event <;> first | rfl | exact (hissued _ rfl).elim

theorem releasedId_eq_none (hreleased : ∀ id, event ≠ .released id) :
    releasedId (i, event) = none := by
  cases event <;> first | rfl | exact (hreleased _ rfl).elim

theorem IssuerInvariant.keep
    (hinvariant : IssuerInvariant handler issuer transcript)
    (hissued : ∀ lease, event ≠ .issued lease)
    (hreleased : ∀ id, event ≠ .released id) :
    IssuerInvariant handler issuer (transcript ++ [(i, event)]) where
  instanceId := hinvariant.instanceId
  issued := by
    intro j lease hmem
    rcases mem_append_entry_iff.mp hmem with hold | ⟨_, heq⟩
    · exact hinvariant.issued hold
    · exact (hissued lease heq.symm).elim
  issued_distinct :=
    hinvariant.issued_distinct.append_of_none (issuedId_eq_none hissued)
  revoked_lt := hinvariant.revoked_lt
  released := by
    intro j id hmem
    rcases mem_append_entry_iff.mp hmem with hold | ⟨_, heq⟩
    · exact hinvariant.released hold
    · exact (hreleased id heq.symm).elim
  released_distinct :=
    hinvariant.released_distinct.append_of_none (releasedId_eq_none hreleased)

/-- Revoking a live id, with the entry which says so: `compensated` for a
lease which was never stored, `released` for a stored one. -/
theorem IssuerInvariant.revoke {state : LeaseState} {id : LeaseId}
    (hinvariant : IssuerInvariant handler state.issuer transcript)
    (hid : HandedOut state.issuer id)
    (hlive : id.sequence ∉ state.issuer.revoked)
    (hevent : event = .compensated id ∨ event = .released id) :
    IssuerInvariant handler (state.revoke id).1.issuer
      (transcript ++ [(i, event)]) := by
  have hissued : ∀ lease, event ≠ .issued lease := by
    intro lease heq
    rcases hevent with hcompensated | hreleased
    · exact Happening.noConfusion (hcompensated.symm.trans heq)
    · exact Happening.noConfusion (hreleased.symm.trans heq)
  constructor
  case instanceId =>
    rw [revoke_issuer_instanceId]
    exact hinvariant.instanceId
  case issued =>
    intro j lease hmem
    rw [HandedOut, revoke_issuer_instanceId, revoke_issuer_nextSequence]
    rcases mem_append_entry_iff.mp hmem with hold | ⟨_, heq⟩
    · exact hinvariant.issued hold
    · exact (hissued lease heq.symm).elim
  case issued_distinct =>
    exact hinvariant.issued_distinct.append_of_none (issuedId_eq_none hissued)
  case revoked_lt =>
    intro sequence hmem
    rw [revoke_issuer_nextSequence]
    rcases (mem_revoke_issuer_revoked_iff hid.1 hid.2).mp hmem with
      heq | hold
    · rw [heq]
      exact hid.2
    · exact hinvariant.revoked_lt sequence hold
  case released =>
    intro j other hmem
    rw [revoke_issuer_instanceId, mem_revoke_issuer_revoked_iff hid.1 hid.2]
    rcases mem_append_entry_iff.mp hmem with hold | ⟨_, heq⟩
    · have hother := hinvariant.released hold
      exact ⟨hother.1, .inr hother.2⟩
    · rcases hevent with hcompensated | hreleased
      · exact Happening.noConfusion (heq.trans hcompensated)
      · rw [Happening.released.inj (heq.trans hreleased)]
        exact ⟨hid.1, .inl rfl⟩
  case released_distinct =>
    rcases hevent with hcompensated | hreleased
    · subst hcompensated
      exact hinvariant.released_distinct.append_of_none rfl
    · subst hreleased
      refine hinvariant.released_distinct.append_of_fresh rfl ?_
      intro earlier hearlier hsame
      obtain ⟨j, heq⟩ := releasedId_eq_some_iff.mp hsame
      exact hlive (hinvariant.released (heq ▸ hearlier)).2

variable {policy : PolicySet} {provenance : ProvenanceRecord}
  {now : MonotonicTime} {ttl : Duration} {next : LeaseIssuer}
  {lease : ComputeLease}

theorem nextSequence_toNat_of_issued
    (hissued : issuer.Issued policy provenance now ttl next lease) :
    next.nextSequence.toNat = issuer.nextSequence.toNat + 1 := by
  have hroom := hissued.room
  rw [hissued.next_eq]
  exact Nat.mod_eq_of_lt hroom

theorem HandedOut.of_issued {id : LeaseId} (hid : HandedOut issuer id)
    (hissued : issuer.Issued policy provenance now ttl next lease) :
    HandedOut next id := by
  have hnext := nextSequence_toNat_of_issued hissued
  have hlt := hid.2
  refine ⟨?_, by omega⟩
  rw [hissued.next_eq]
  exact hid.1

theorem handedOut_issued
    (hissued : issuer.Issued policy provenance now ttl next lease) :
    HandedOut next lease.id := by
  have hnext := nextSequence_toNat_of_issued hissued
  rw [HandedOut, hissued.id]
  constructor
  · rw [hissued.next_eq]
  · rw [hnext]
    exact Nat.lt_succ_self _

theorem revoked_of_issued
    (hissued : issuer.Issued policy provenance now ttl next lease) :
    next.revoked = issuer.revoked := by
  rw [hissued.next_eq]

theorem not_revoked_issued
    (hrevoked : ∀ sequence ∈ issuer.revoked,
      sequence.toNat < issuer.nextSequence.toNat)
    (hissued : issuer.Issued policy provenance now ttl next lease) :
    lease.id.sequence ∉ next.revoked := by
  intro hmem
  rw [revoked_of_issued hissued, hissued.id] at hmem
  have hlt := hrevoked _ hmem
  exact Nat.lt_irrefl _ hlt

theorem HandedOut.ne_of_issued {id : LeaseId} (hid : HandedOut issuer id)
    (hissued : issuer.Issued policy provenance now ttl next lease) :
    id ≠ lease.id := by
  intro heq
  have hlt := hid.2
  rw [heq, hissued.id] at hlt
  exact Nat.lt_irrefl _ hlt

theorem IssuerInvariant.issue
    (hinvariant : IssuerInvariant handler issuer transcript)
    (hissued : issuer.Issued policy provenance now ttl next lease) :
    IssuerInvariant handler next (transcript ++ [(i, .issued lease)]) where
  instanceId := by
    rw [hissued.next_eq]
    exact hinvariant.instanceId
  issued := by
    intro j other hmem
    rcases mem_append_entry_iff.mp hmem with hold | ⟨_, heq⟩
    · exact (hinvariant.issued hold).of_issued hissued
    · rw [Happening.issued.inj heq]
      exact handedOut_issued hissued
  issued_distinct := by
    refine hinvariant.issued_distinct.append_of_fresh rfl ?_
    intro earlier hearlier hsame
    obtain ⟨j, other, heq, hid⟩ := issuedId_eq_some_iff.mp hsame
    have hold : HandedOut issuer other.id :=
      hinvariant.issued (heq ▸ hearlier)
    exact hold.ne_of_issued hissued hid
  revoked_lt := by
    intro sequence hmem
    rw [revoked_of_issued hissued] at hmem
    have hlt := hinvariant.revoked_lt sequence hmem
    have hnext := nextSequence_toNat_of_issued hissued
    omega
  released := by
    intro j id hmem
    rw [hissued.next_eq]
    rcases mem_append_entry_iff.mp hmem with hold | ⟨_, heq⟩
    · exact hinvariant.released hold
    · contradiction
  released_distinct := hinvariant.released_distinct.append_of_none rfl

end IssuerInvariant

/-! ## Held and stored leases -/

/-- A lease which is stored, or held by a call which has not settled it. -/
def Ledger.Live (ledger : Ledger) (lease : ComputeLease) : Prop :=
  (∃ i, ledger.held i = some lease) ∨
    ledger.state.get lease.id = some lease

structure HoldingsInvariant (ledger : Ledger) : Prop where
  live : ∀ {lease}, ledger.Live lease →
    HandedOut ledger.state.issuer lease.id ∧
      lease.id.sequence ∉ ledger.state.issuer.revoked
  held_not_stored : ∀ {i lease}, ledger.held i = some lease →
    ledger.state.get lease.id = none
  held_distinct : ∀ {i j lease other}, ledger.held i = some lease →
    ledger.held j = some other → lease.id = other.id → i = j
  stored_iff : ∀ {id lease}, ledger.state.get id = some lease ↔
    lease.id = id ∧ Outstanding ledger.transcript lease

namespace HoldingsInvariant

variable {ledger : Ledger} {i : ℕ} {id : LeaseId} {lease : ComputeLease}

theorem id_eq (hholdings : HoldingsInvariant ledger)
    (hstored : ledger.state.get id = some lease) : lease.id = id :=
  (hholdings.stored_iff.mp hstored).1

theorem live_of_stored (hholdings : HoldingsInvariant ledger)
    (hstored : ledger.state.get id = some lease) : ledger.Live lease := by
  have hid := hholdings.id_eq hstored
  right
  rw [hid]
  exact hstored

theorem ne_of_held_of_stored {j : ℕ} {stored : ComputeLease}
    (hholdings : HoldingsInvariant ledger)
    (hheld : ledger.held j = some lease)
    (hstored : ledger.state.get id = some stored) : lease.id ≠ id := by
  intro heq
  have hnone := hholdings.held_not_stored hheld
  rw [heq, hstored] at hnone
  contradiction

theorem held_distinct_enter_none {state : LeaseState} {event : Happening}
    {j k : ℕ} {first second : ComputeLease}
    (hholdings : HoldingsInvariant ledger)
    (hfirst : (ledger.enter i state none event).held j = some first)
    (hsecond : (ledger.enter i state none event).held k = some second)
    (heq : first.id = second.id) : j = k :=
  hholdings.held_distinct (Ledger.held_enter_none_eq_some_iff.mp hfirst).2
    (Ledger.held_enter_none_eq_some_iff.mp hsecond).2 heq

theorem live_of_revoke {state : LeaseState} {other : LeaseId}
    (hid : HandedOut state.issuer id)
    (hother : HandedOut state.issuer other ∧
      other.sequence ∉ state.issuer.revoked)
    (hne : other ≠ id) :
    HandedOut (state.revoke id).1.issuer other ∧
      other.sequence ∉ (state.revoke id).1.issuer.revoked := by
  constructor
  · rw [HandedOut, revoke_issuer_instanceId, revoke_issuer_nextSequence]
    exact hother.1
  · rw [mem_revoke_issuer_revoked_iff hid.1 hid.2]
    intro hcases
    rcases hcases with hsequence | hrevoked
    · apply hne
      cases other
      cases id
      have hissuer := hother.1.1.trans hid.1.symm
      simp only at hissuer hsequence
      rw [hissuer, hsequence]
    · exact hother.2 hrevoked

theorem note {event : Happening} (hholdings : HoldingsInvariant ledger)
    (hquiet : event.IsQuiet) :
    HoldingsInvariant
      (ledger.enter i ledger.state (ledger.held i) event) where
  live := by
    intro lease hlive
    rw [Ledger.Live, Ledger.held_enter_same] at hlive
    exact hholdings.live hlive
  held_not_stored := by
    rw [Ledger.held_enter_same]
    exact hholdings.held_not_stored
  held_distinct := by
    rw [Ledger.held_enter_same]
    exact hholdings.held_distinct
  stored_iff := by
    intro id lease
    have hneutral : event ≠ .inserted lease ∧ ¬event.Drops lease := by
      cases event <;> simp [Happening.IsQuiet, Happening.Drops] at hquiet ⊢
    rw [Ledger.outstanding_enter_iff]
    simp only [hneutral.1, hneutral.2, false_or, not_false_eq_true, and_true]
    exact hholdings.stored_iff

theorem prune {now : MonotonicTime} (hholdings : HoldingsInvariant ledger) :
    HoldingsInvariant
      (ledger.enter i (ledger.state.prune now) (ledger.held i)
        (.pruned now)) where
  live := by
    intro lease hlive
    rw [Ledger.Live, Ledger.held_enter_same] at hlive
    rcases hlive with hheld | hstored
    · exact hholdings.live (.inl hheld)
    · have hbefore := (LeaseState.get_prune_eq_some_iff.mp hstored).1
      exact hholdings.live (.inr hbefore)
  held_not_stored := by
    rw [Ledger.held_enter_same]
    intro j lease hheld
    exact KeyedStore.Store.lookup_retain_eq_none
      (hholdings.held_not_stored hheld)
  held_distinct := by
    rw [Ledger.held_enter_same]
    exact hholdings.held_distinct
  stored_iff := by
    intro id lease
    have hunexpired : ¬Happening.Drops lease (.pruned now) ↔
        now < lease.expiresAt := MonotonicTime.not_le_iff_lt
    rw [Ledger.outstanding_enter_iff, hunexpired]
    simp only [reduceCtorEq, false_or]
    rw [← and_assoc, ← hholdings.stored_iff]
    exact LeaseState.get_prune_eq_some_iff

theorem issue {policy : PolicySet} {provenance : ProvenanceRecord}
    {now : MonotonicTime} {ttl : Duration} {issuer : LeaseIssuer}
    (hholdings : HoldingsInvariant ledger)
    (hrevoked : ∀ sequence ∈ ledger.state.issuer.revoked,
      sequence.toNat < ledger.state.issuer.nextSequence.toNat)
    (hissued : ledger.state.issuer.Issued policy provenance now ttl issuer
      lease) :
    HoldingsInvariant
      (ledger.enter i
        ({ ledger.state with issuer := issuer } : LeaseState).reserve
        (some lease) (.issued lease)) where
  live := by
    intro other hlive
    have hcases : other = lease ∨ ledger.Live other := by
      rcases hlive with ⟨j, hheld⟩ | hstored
      · rcases Ledger.held_enter_eq_some_iff.mp hheld with
          ⟨_, heq⟩ | ⟨_, hold⟩
        · exact .inl (Option.some.inj heq).symm
        · exact .inr (.inl ⟨j, hold⟩)
      · exact .inr (.inr hstored)
    rcases hcases with heq | hold
    · rw [heq]
      exact ⟨handedOut_issued hissued, not_revoked_issued hrevoked hissued⟩
    · obtain ⟨hhanded, hlive⟩ := hholdings.live hold
      rw [← revoked_of_issued hissued] at hlive
      exact ⟨hhanded.of_issued hissued, hlive⟩
  held_not_stored := by
    intro j other hheld
    rcases Ledger.held_enter_eq_some_iff.mp hheld with ⟨_, heq⟩ | ⟨_, hold⟩
    · rw [← Option.some.inj heq]
      cases hstored : ledger.state.get lease.id with
      | none => exact hstored
      | some stored =>
          have hhanded := (hholdings.live
            (hholdings.live_of_stored hstored)).1
          have hid := hholdings.id_eq hstored
          exact (hhanded.ne_of_issued hissued hid).elim
    · exact hholdings.held_not_stored hold
  held_distinct := by
    have hfresh : ∀ {j other}, ledger.held j = some other →
        other.id ≠ lease.id := by
      intro j other hheld
      exact (hholdings.live (.inl ⟨j, hheld⟩)).1.ne_of_issued hissued
    intro j k first second hfirst hsecond heq
    rcases Ledger.held_enter_eq_some_iff.mp hfirst with
      ⟨hj, hnew⟩ | ⟨hj, hold⟩
    · rcases Ledger.held_enter_eq_some_iff.mp hsecond with
        ⟨hk, _⟩ | ⟨_, hother⟩
      · rw [hj, hk]
      · rw [← Option.some.inj hnew] at heq
        exact (hfresh hother heq.symm).elim
    · rcases Ledger.held_enter_eq_some_iff.mp hsecond with
        ⟨_, hnew⟩ | ⟨_, hother⟩
      · rw [← Option.some.inj hnew] at heq
        exact (hfresh hold heq).elim
      · exact hholdings.held_distinct hold hother heq
  stored_iff := by
    intro id other
    rw [Ledger.outstanding_enter_iff]
    simp only [reduceCtorEq, false_or, Happening.Drops, not_false_eq_true,
      and_true]
    exact hholdings.stored_iff

theorem insert (hholdings : HoldingsInvariant ledger)
    (hheld : ledger.held i = some lease) :
    HoldingsInvariant
      (ledger.enter i (ledger.state.insert lease) none
        (.inserted lease)) where
  live := by
    intro other hlive
    apply hholdings.live
    rcases hlive with ⟨j, hstill⟩ | hstored
    · have hold := (Ledger.held_enter_none_eq_some_iff.mp hstill).2
      exact .inl ⟨j, hold⟩
    · rcases LeaseState.get_insert_eq_some_iff.mp hstored with
        ⟨_, heq⟩ | ⟨_, hold⟩
      · exact .inl ⟨i, heq ▸ hheld⟩
      · exact .inr hold
  held_not_stored := by
    intro j other hstill
    obtain ⟨hj, hold⟩ := Ledger.held_enter_none_eq_some_iff.mp hstill
    cases hstored : (ledger.state.insert lease).get other.id with
    | none => exact hstored
    | some stored =>
        rcases LeaseState.get_insert_eq_some_iff.mp hstored with
          ⟨hid, _⟩ | ⟨_, hbefore⟩
        · exact (hj (hholdings.held_distinct hold hheld hid)).elim
        · exact (hholdings.ne_of_held_of_stored hold hbefore rfl).elim
  held_distinct := hholdings.held_distinct_enter_none
  stored_iff := by
    intro id other
    have hstored : ledger.state.get id = some other ↔ _ :=
      hholdings.stored_iff
    rw [Ledger.outstanding_enter_iff]
    simp only [Happening.inserted.injEq, Happening.Drops, not_false_eq_true,
      and_true]
    constructor
    · intro hget
      rcases LeaseState.get_insert_eq_some_iff.mp hget with
        ⟨hid, heq⟩ | ⟨_, hold⟩
      · exact ⟨heq ▸ hid.symm, .inl heq⟩
      · have hbefore := hstored.mp hold
        exact ⟨hbefore.1, .inr hbefore.2⟩
    · intro hcases
      rcases hcases with ⟨hid, heq | hold⟩
      · exact LeaseState.get_insert_eq_some_iff.mpr
          (.inl ⟨heq ▸ hid.symm, heq⟩)
      · have hbefore := hstored.mpr ⟨hid, hold⟩
        have hne := hholdings.ne_of_held_of_stored hheld hbefore
        exact LeaseState.get_insert_eq_some_iff.mpr
          (.inr ⟨hne.symm, hbefore⟩)

theorem compensate (hholdings : HoldingsInvariant ledger)
    (hheld : ledger.held i = some lease) :
    HoldingsInvariant
      (ledger.enter i (ledger.state.revoke lease.id).1.releaseReservation
        none (.compensated lease.id)) where
  live := by
    have hhanded := (hholdings.live (.inl ⟨i, hheld⟩)).1
    intro other hlive
    have hbefore : ledger.Live other ∧ other.id ≠ lease.id := by
      rcases hlive with ⟨j, hstill⟩ | hstored
      · obtain ⟨hj, hold⟩ := Ledger.held_enter_none_eq_some_iff.mp hstill
        exact ⟨.inl ⟨j, hold⟩, fun hid =>
          hj (hholdings.held_distinct hold hheld hid)⟩
      · exact ⟨.inr hstored,
          (hholdings.ne_of_held_of_stored hheld hstored).symm⟩
    rcases hbefore with ⟨hother, hne⟩
    exact live_of_revoke hhanded (hholdings.live hother) hne
  held_not_stored := by
    intro j other hstill
    have hold := (Ledger.held_enter_none_eq_some_iff.mp hstill).2
    exact hholdings.held_not_stored hold
  held_distinct := hholdings.held_distinct_enter_none
  stored_iff := by
    intro id other
    rw [Ledger.outstanding_enter_iff]
    simp only [reduceCtorEq, false_or, Happening.Drops, not_false_eq_true,
      and_true]
    exact hholdings.stored_iff

theorem release (hholdings : HoldingsInvariant ledger)
    (hstored : ledger.state.get id = some lease) :
    HoldingsInvariant
      (ledger.enter i ((ledger.state.revoke id).1.remove id)
        (ledger.held i) (.released id)) where
  live := by
    have hid := hholdings.id_eq hstored
    have hhanded := (hholdings.live (hholdings.live_of_stored hstored)).1
    rw [hid] at hhanded
    intro other hlive
    rw [Ledger.Live, Ledger.held_enter_same] at hlive
    have hbefore : ledger.Live other ∧ other.id ≠ id := by
      rcases hlive with ⟨j, hheld⟩ | hkept
      · exact ⟨.inl ⟨j, hheld⟩,
          hholdings.ne_of_held_of_stored hheld hstored⟩
      · obtain ⟨hne, hold⟩ := LeaseState.get_remove_eq_some_iff.mp hkept
        exact ⟨.inr hold, hne⟩
    rcases hbefore with ⟨hother, hne⟩
    exact live_of_revoke hhanded (hholdings.live hother) hne
  held_not_stored := by
    rw [Ledger.held_enter_same]
    intro j other hheld
    have hnone := hholdings.held_not_stored hheld
    cases hkept : ((ledger.state.revoke id).1.remove id).get other.id with
    | none => exact hkept
    | some kept =>
        have hold := (LeaseState.get_remove_eq_some_iff.mp hkept).2
        exact (Option.some_ne_none kept (hold.symm.trans hnone)).elim
  held_distinct := by
    rw [Ledger.held_enter_same]
    exact hholdings.held_distinct
  stored_iff := by
    intro other kept
    have hbefore : ledger.state.get other = some kept ↔ _ :=
      hholdings.stored_iff
    rw [Ledger.outstanding_enter_iff]
    simp only [reduceCtorEq, false_or, Happening.Drops]
    constructor
    · intro hget
      obtain ⟨hne, hold⟩ := LeaseState.get_remove_eq_some_iff.mp hget
      obtain ⟨hid, houtstanding⟩ := hbefore.mp hold
      exact ⟨hid, houtstanding, fun heq => hne (hid ▸ heq.symm)⟩
    · intro hcases
      rcases hcases with ⟨hid, houtstanding, hne⟩
      have hold := hbefore.mpr ⟨hid, houtstanding⟩
      exact LeaseState.get_remove_eq_some_iff.mpr
        ⟨fun heq => hne (heq ▸ hid.symm), hold⟩

end HoldingsInvariant

/-! ## Reservations -/

/-- One reservation for each call which holds a lease, and room for all of
them. -/
structure Occupancy (handler : AuthorizationHandler) (ledger : Ledger) :
    Prop where
  maxOutstanding :
    ledger.state.maxOutstanding = handler.config.maxOutstandingLeases
  reserved : ∃ holders : Finset ℕ,
    (∀ i, i ∈ holders ↔ (ledger.held i).isSome) ∧
      ledger.state.reserved = holders.card
  room : ledger.state.leases.size + ledger.state.reserved ≤
    ledger.state.maxOutstanding

namespace Occupancy

variable {handler : AuthorizationHandler} {ledger : Ledger} {i : ℕ}
  {state : LeaseState} {event : Happening} {lease : ComputeLease}

/-- An entry which changes neither the holders nor the reservations, and does
not enlarge the store. -/
theorem keep (hoccupancy : Occupancy handler ledger)
    (hmax : state.maxOutstanding = ledger.state.maxOutstanding)
    (hreserved : state.reserved = ledger.state.reserved)
    (hsize : state.leases.size ≤ ledger.state.leases.size) :
    Occupancy handler (ledger.enter i state (ledger.held i) event) where
  maxOutstanding := hmax.trans hoccupancy.maxOutstanding
  reserved := by
    rw [Ledger.held_enter_same]
    obtain ⟨holders, hholders, hcard⟩ := hoccupancy.reserved
    exact ⟨holders, hholders, hreserved.trans hcard⟩
  room := by
    have hroom := hoccupancy.room
    simp only [Ledger.enter, hmax, hreserved]
    omega

theorem reserve (hoccupancy : Occupancy handler ledger)
    (hfree : ledger.held i = none)
    (hroom : ¬ledger.state.IsAtCapacity)
    (hmax : state.maxOutstanding = ledger.state.maxOutstanding)
    (hreserved : state.reserved = ledger.state.reserved + 1)
    (hleases : state.leases = ledger.state.leases) :
    Occupancy handler (ledger.enter i state (some lease) event) where
  maxOutstanding := hmax.trans hoccupancy.maxOutstanding
  reserved := by
    obtain ⟨holders, hholders, hcard⟩ := hoccupancy.reserved
    have hnew : i ∉ holders := by
      rw [hholders, hfree]
      simp
    refine ⟨insert i holders, ?_, ?_⟩
    · intro j
      by_cases hj : j = i
      · simp [hj, Ledger.enter]
      · simp [hj, Ledger.enter, hholders]
    · simp only [Ledger.enter, hreserved, hcard,
        Finset.card_insert_of_notMem hnew]
  room := by
    simp only [LeaseState.IsAtCapacity] at hroom
    simp only [Ledger.enter, hmax, hreserved, hleases]
    omega

/-- A settlement gives back the one reservation of its call, whether the lease
goes into the store or not. -/
theorem settle (hoccupancy : Occupancy handler ledger)
    (hheld : ledger.held i = some lease)
    (hmax : state.maxOutstanding = ledger.state.maxOutstanding)
    (hreserved : state.reserved = ledger.state.reserved - 1)
    (hsize : state.leases.size ≤ ledger.state.leases.size + 1) :
    Occupancy handler (ledger.enter i state none event) := by
  obtain ⟨holders, hholders, hcard⟩ := hoccupancy.reserved
  have hmem : i ∈ holders := by
    rw [hholders, hheld]
    rfl
  have hpositive : 0 < holders.card := Finset.card_pos.mpr ⟨i, hmem⟩
  constructor
  · exact hmax.trans hoccupancy.maxOutstanding
  · refine ⟨holders.erase i, ?_, ?_⟩
    · intro j
      by_cases hj : j = i
      · simp [hj, Ledger.enter]
      · simp [hj, Ledger.enter, hholders]
    · simp only [Ledger.enter, hreserved, hcard,
        Finset.card_erase_of_mem hmem]
  · have hroom := hoccupancy.room
    simp only [Ledger.enter, hmax, hreserved]
    omega

end Occupancy

/-! ## Every step of the ledger -/

structure LedgerInvariant (handler : AuthorizationHandler)
    (ledger : Ledger) : Prop where
  issuer : IssuerInvariant handler ledger.state.issuer ledger.transcript
  holdings : HoldingsInvariant ledger
  occupancy : Occupancy handler ledger

namespace LedgerInvariant

variable {handler : AuthorizationHandler} {ledger next : Ledger}

theorem initial : LedgerInvariant handler
    ⟨handler.newState, fun _ => none, []⟩ where
  issuer :=
    { instanceId := rfl
      issued := by simp
      issued_distinct := List.Pairwise.nil
      released_distinct := List.Pairwise.nil
      revoked_lt := by
        simp [AuthorizationHandler.newState, LeaseState.new, LeaseIssuer.new]
      released := by simp }
  holdings :=
    { live := by
        intro lease hlive
        rcases hlive with ⟨i, hheld⟩ | hstored
        · contradiction
        · rw [AuthorizationHandler.newState, LeaseState.get_new] at hstored
          contradiction
      held_not_stored := by simp
      held_distinct := by simp
      stored_iff := by
        intro id lease
        simp only [AuthorizationHandler.newState, LeaseState.get_new,
          reduceCtorEq, Outstanding, not_since_nil, and_false] }
  occupancy :=
    { maxOutstanding := rfl
      reserved := ⟨∅, by simp, rfl⟩
      room := Nat.zero_le _ }

theorem step (hinvariant : LedgerInvariant handler ledger)
    (hstep : LedgerStep handler ledger next) :
    LedgerInvariant handler next := by
  rcases hinvariant with ⟨hissuer, hholdings, hoccupancy⟩
  cases hstep with
  | note hquiet =>
      exact ⟨hissuer.keep hquiet.ne_issued hquiet.ne_released,
        hholdings.note hquiet, hoccupancy.keep rfl rfl le_rfl⟩
  | prune =>
      exact ⟨hissuer.keep (by simp) (by simp), hholdings.prune,
        hoccupancy.keep rfl rfl (LeaseState.size_prune_le _ _)⟩
  | issue hfree hroom hissued =>
      exact ⟨hissuer.issue hissued,
        hholdings.issue hissuer.revoked_lt hissued,
        hoccupancy.reserve hfree hroom rfl rfl rfl⟩
  | insert hheld =>
      exact ⟨hissuer.keep (by simp) (by simp), hholdings.insert hheld,
        hoccupancy.settle hheld rfl rfl (LeaseState.size_insert_le _ _)⟩
  | compensate hheld =>
      obtain ⟨hhanded, hlive⟩ := hholdings.live (.inl ⟨_, hheld⟩)
      exact ⟨hissuer.revoke hhanded hlive (.inl rfl),
        hholdings.compensate hheld,
        hoccupancy.settle hheld rfl rfl (Nat.le_succ _)⟩
  | release hstored =>
      obtain ⟨hhanded, hlive⟩ :=
        hholdings.live (hholdings.live_of_stored hstored)
      rw [hholdings.id_eq hstored] at hhanded hlive
      exact ⟨hissuer.revoke hhanded hlive (.inr rfl),
        hholdings.release hstored,
        hoccupancy.keep rfl rfl (LeaseState.size_remove_le _ _)⟩

theorem steps (hinvariant : LedgerInvariant handler ledger)
    (hsteps : Relation.ReflTransGen (LedgerStep handler) ledger next) :
    LedgerInvariant handler next := by
  induction hsteps with
  | refl => exact hinvariant
  | tail _ hstep ih => exact ih.step hstep

end LedgerInvariant

end Eltanin.Agent
