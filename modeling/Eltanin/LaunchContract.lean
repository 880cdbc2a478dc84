import Eltanin.LabelledRun
import Eltanin.SuperviseModel

/-!
# What a launch owes

The obligations of a launch as a specification automaton over its events.
Nothing here knows how the launch goes about it: a workload needs a lease, a
lease is replaced before it is given back, only a lapsed lease stops the
workload, and the governed context goes last.
-/

namespace Eltanin.Cli

open Eltanin.Core Protocol LabelledRun

/-- A granted lease and the reading which was taken before it was asked
for. -/
structure Grant where
  lease : LeaseView
  observedAt : Instant
  deriving DecidableEq

namespace Grant

def leaseId (self : Grant) : LeaseId := self.lease.leaseId

def deadline (self : Grant) : Instant :=
  safeDeadline self.observedAt self.lease.remaining

end Grant

/-! ## What a trace shows -/

namespace LaunchEvent

def grant? : LaunchEvent → Option Grant
  | .granted lease observedAt => some ⟨lease, observedAt⟩
  | _ => none

def release? : LaunchEvent → Option LeaseId
  | .releasing leaseId => some leaseId
  | _ => none

/-- Events which change nothing that is owed. -/
def Quiet : LaunchEvent → Prop
  | .requested _ _ => True
  | .forwarded _ => True
  | .dropped _ => True
  | .releaseSent _ _ => True
  | .releaseWarned _ => True
  | .teardownWarned _ => True
  | _ => False

end LaunchEvent

def grants (trace : List LaunchEvent) : List Grant :=
  trace.filterMap LaunchEvent.grant?

/-- The lease ids which have been passed to `release`. -/
def releases (trace : List LaunchEvent) : List LeaseId :=
  trace.filterMap LaunchEvent.release?

/-- The grants which have not been passed to `release`. -/
def held (trace : List LaunchEvent) : List Grant :=
  (grants trace).filter fun grant => grant.leaseId ∉ releases trace

theorem grants_append (before after : List LaunchEvent) :
    grants (before ++ after) = grants before ++ grants after :=
  List.filterMap_append

theorem releases_append (before after : List LaunchEvent) :
    releases (before ++ after) = releases before ++ releases after :=
  List.filterMap_append

/-! ## The automaton -/

inductive Ending where
  | unstarted
  | exited (status : ExitStatus)
  | terminated
  deriving DecidableEq

inductive Standing where
  | fresh
  | prepared
  | holding (grant : Grant)
  | running (grant : Grant)
  | renewed (old grant : Grant)
  | lapsed (grant : Grant)
  | stopped (grant : Grant) (ending : Ending)
  | released (ending : Ending)
  | closed (ending : Ending)
  deriving DecidableEq

inductive Permits : Standing → LaunchEvent → Standing → Prop
  | establish : Permits .fresh .established .prepared
  | grant (lease : LeaseView) (observedAt : Instant) :
      Permits .prepared (.granted lease observedAt)
        (.holding ⟨lease, observedAt⟩)
  | spawn (grant : Grant) (child : ChildPid) :
      Permits (.holding grant) (.spawned child) (.running grant)
  | renew (old : Grant) (lease : LeaseView) (observedAt : Instant) :
      Permits (.running old) (.granted lease observedAt)
        (.renewed old ⟨lease, observedAt⟩)
  | replace (old grant : Grant) :
      Permits (.renewed old grant) (.releasing old.leaseId) (.running grant)
  | exit (grant : Grant) (status : ExitStatus) :
      Permits (.running grant) (.exited status)
        (.stopped grant (.exited status))
  | lapse (grant : Grant) (now : Instant) (hpast : grant.deadline ≤ now) :
      Permits (.running grant) (.lapsed now) (.lapsed grant)
  | terminate (grant : Grant) :
      Permits (.lapsed grant) (.terminating (.signalledGroup .term))
        (.stopped grant .terminated)
  | kill (grant : Grant) (event : TerminationEvent) :
      Permits (.stopped grant .terminated) (.terminating event)
        (.stopped grant .terminated)
  | release (grant : Grant) (ending : Ending) :
      Permits (.stopped grant ending) (.releasing grant.leaseId)
        (.released ending)
  | giveUp (grant : Grant) :
      Permits (.holding grant) (.releasing grant.leaseId)
        (.released .unstarted)
  | close (ending : Ending) :
      Permits (.released ending) .tornDown (.closed ending)
  | abandon : Permits .prepared .tornDown (.closed .unstarted)
  | quiet (standing : Standing) (event : LaunchEvent) (hquiet : event.Quiet) :
      Permits standing event standing

namespace Standing

/-- The grants which are still to be released. -/
def holds : Standing → List Grant
  | .holding grant => [grant]
  | .running grant => [grant]
  | .renewed old grant => [old, grant]
  | .lapsed grant => [grant]
  | .stopped grant _ => [grant]
  | _ => []

def ending : Standing → Ending
  | .stopped _ ending => ending
  | .released ending => ending
  | .closed ending => ending
  | _ => .unstarted

def Opening : Standing → Prop
  | .fresh => True
  | .prepared => True
  | _ => False

/-- The workload may no longer be spawned. -/
def Settled : Standing → Prop
  | .fresh => False
  | .prepared => False
  | .holding _ => False
  | _ => True

/-- Nothing is obtained any more. -/
def Released : Standing → Prop
  | .released _ => True
  | .closed _ => True
  | _ => False

def Closed : Standing → Prop
  | .closed _ => True
  | _ => False

end Standing

/-! ## One event -/

section Event

variable {standing reached : Standing} {event : LaunchEvent}
  {before : List LaunchEvent}

theorem LaunchEvent.Quiet.grants_eq_nil (hquiet : event.Quiet) :
    grants [event] = [] := by
  cases event <;> first | rfl | exact hquiet.elim

theorem LaunchEvent.Quiet.releases_eq_nil (hquiet : event.Quiet) :
    releases [event] = [] := by
  cases event <;> first | rfl | exact hquiet.elim

/-- The grants which an event leaves behind are the ones it releases. -/
theorem Permits.holds_append (hpermits : Permits standing event reached) :
    ∃ given, standing.holds ++ grants [event] = given ++ reached.holds ∧
      releases [event] = given.map Grant.leaseId := by
  cases hpermits with
  | establish => exact ⟨[], rfl, rfl⟩
  | grant lease observedAt => exact ⟨[], rfl, rfl⟩
  | spawn grant child => exact ⟨[], rfl, rfl⟩
  | renew old lease observedAt => exact ⟨[], rfl, rfl⟩
  | replace old grant => exact ⟨[old], rfl, rfl⟩
  | exit grant status => exact ⟨[], rfl, rfl⟩
  | lapse grant now _ => exact ⟨[], rfl, rfl⟩
  | terminate grant => exact ⟨[], rfl, rfl⟩
  | kill grant event => exact ⟨[], rfl, rfl⟩
  | release grant ending => exact ⟨[grant], rfl, rfl⟩
  | giveUp grant => exact ⟨[grant], rfl, rfl⟩
  | close ending => exact ⟨[], rfl, rfl⟩
  | abandon => exact ⟨[], rfl, rfl⟩
  | quiet _ _ hquiet =>
      refine ⟨[], ?_, ?_⟩
      · rw [hquiet.grants_eq_nil, List.append_nil, List.nil_append]
      · rw [hquiet.releases_eq_nil, List.map_nil]

theorem Permits.opening (hpermits : Permits standing event reached)
    (hopening : reached.Opening) :
    standing.Opening ∧ grants [event] = [] := by
  cases hpermits with
  | establish => exact ⟨trivial, rfl⟩
  | quiet _ _ hquiet => exact ⟨hopening, hquiet.grants_eq_nil⟩
  | _ => exact hopening.elim

theorem Permits.settled (hpermits : Permits standing event reached)
    (hsettled : standing.Settled) :
    reached.Settled ∧ ∀ child, event ≠ .spawned child := by
  cases hpermits with
  | quiet _ _ hquiet =>
      refine ⟨hsettled, ?_⟩
      rintro child rfl
      exact hquiet
  | _ => simp_all [Standing.Settled]

theorem Permits.released (hpermits : Permits standing event reached)
    (hreleased : standing.Released) :
    reached.Released ∧ event.grant? = none ∧ event.release? = none := by
  cases hpermits with
  | quiet _ _ hquiet =>
      refine ⟨hreleased, ?_⟩
      cases event <;> first | exact ⟨rfl, rfl⟩ | exact hquiet.elim
  | _ => simp_all [Standing.Released, LaunchEvent.grant?,
      LaunchEvent.release?]

theorem Permits.closed (hpermits : Permits standing event reached)
    (hclosed : standing.Closed) : reached.Closed ∧ event ≠ .tornDown := by
  cases hpermits with
  | quiet _ _ hquiet =>
      refine ⟨hclosed, ?_⟩
      rintro rfl
      exact hquiet
  | _ => simp_all [Standing.Closed]

end Event

/-! ## Whole traces -/

section Trace

variable {trace before after : List LaunchEvent} {standing : Standing}
  {grant : Grant}

theorem grants_eq_append (hrun : Run Permits .fresh trace standing) :
    ∃ given, grants trace = given ++ standing.holds ∧
      releases trace = given.map Grant.leaseId := by
  apply hrun.history ⟨[], rfl, rfl⟩
  intro before state event reached hbefore hpermits
  obtain ⟨given, hgrants, hreleases⟩ := hbefore
  obtain ⟨more, hholds, hmore⟩ := hpermits.holds_append
  refine ⟨given ++ more, ?_, ?_⟩
  · rw [grants_append, hgrants, List.append_assoc, hholds, List.append_assoc]
  · rw [releases_append, hreleases, hmore, List.map_append]

end Trace

/-! ## Safety -/

section Safety

variable {trace before after : List LaunchEvent} {standing : Standing}
  {event : LaunchEvent}

theorem grants_ne_nil_of_spawned {child : ChildPid}
    (hrun : Run Permits .fresh (before ++ .spawned child :: after) standing) :
    grants before ≠ [] := by
  obtain ⟨state, reached, hbefore, hpermits, -⟩ := hrun.split
  obtain ⟨given, hgrants, -⟩ := grants_eq_append hbefore
  cases hpermits with
  | spawn grant child => simp [hgrants, Standing.holds]
  | quiet _ _ hquiet => exact hquiet.elim

end Safety

/-! ## Completeness -/

section Completeness

variable {trace : List LaunchEvent} {standing : Standing}

end Completeness

end Eltanin.Cli
