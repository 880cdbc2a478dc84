import Eltanin.AuditEventModel
import Eltanin.AuditInterleaving
import Eltanin.AuditMirror
import Eltanin.AuthorizationOutcomes
import Eltanin.AuthorizationRelease

/-!
# The order of the records of one lease

A call records its event after it has left the lock of the lease store, so the
order of records is not the order in which leases were stored and released.
A lease can be released as soon as it is stored, and the release can be
recorded before the call which was granted the lease gets to record that.
Where no release is recorded in this window, the log shows every grant before
its release.
-/

namespace Eltanin.Agent

open Json Eltanin.Core Backend Protocol Audit EventLog InterleavedSessions
  PartialExecution AuthorizationHandler

/-! ## Grants and releases in the log -/

def AuthorizationEvent.grantedId? (self : AuthorizationEvent) :
    Option LeaseId :=
  match self.outcome with
  | .granted leaseId _ => some leaseId
  | _ => none

def AuthorizationEvent.releasedId? (self : AuthorizationEvent) :
    Option LeaseId :=
  match self.outcome, self.request with
  | .released _ _, .releaseLease request => some request.leaseId
  | _, _ => none

def grantedRecord? (record : AuditRecord) : Option LeaseId :=
  match record.outcome with
  | .granted leaseId _ => some leaseId
  | _ => none

def releasedRecord? (record : AuditRecord) : Option LeaseId :=
  match record.outcome, record.requested with
  | .released _ _, .releaseLease leaseId => some leaseId
  | _, _ => none

/-- No grant of a lease comes after a release of it. -/
def GrantsFirst (records : List AuditRecord) : Prop :=
  ∀ id, NeverAfter (fun record => releasedRecord? record = some id)
    (fun record => grantedRecord? record = some id) records

/-- The events of a run in the order in which they were recorded. -/
def recordedEvents (agent : AgentState) : List AuthorizationEvent :=
  recordsOf (agent.transcript.map Prod.snd)

/-- The sink and its file after these events have been appended, each of them
successfully. -/
inductive Logged (codec : RecordCodec) :
    List AuthorizationEvent → AuditFileSink → List UInt8 → Prop
  | opened (instanceId : IssuerInstanceId) :
      Logged codec [] (.fromWriter instanceId) []
  | recorded {events : List AuthorizationEvent} {sink next : AuditFileSink}
      {file contents : List UInt8} {event : AuthorizationEvent}
      {recordedAt : WallClockTime} {fate : WriteFate}
      {eventId : AuditEventId}
      (hlogged : Logged codec events sink file)
      (happended : sink.append codec file event.entry recordedAt fate =
        (next, contents, .returned (.ok eventId))) :
      Logged codec (events ++ [event]) next contents

/-- The reader finds every grant before its release, in the whole log and in
what it selects for a lease. -/
def ReadsGrantsFirst (codec : RecordCodec) (file : List UInt8) : Prop :=
  ∃ scan, readLog codec file = .ok scan ∧ GrantsFirst scan.records ∧
    ∀ id records, select scan (.lease id) = .found records →
      GrantsFirst records

/-! ## The log holds what was recorded -/

theorem append_eq_ok {codec : RecordCodec} {sink next : AuditFileSink}
    {file contents : List UInt8} {entry : AuditEntry}
    {recordedAt : WallClockTime} {fate : WriteFate} {eventId : AuditEventId}
    (happended : sink.append codec file entry recordedAt fate =
      (next, contents, .returned (.ok eventId))) :
    ∃ text,
      codec.print (.current (entry.record eventId recordedAt)) = .ok text ∧
        contents = file ++ TextLines.encode (text ++ ['\n']) := by
  unfold AuditFileSink.append at happended
  rcases hreserve : sink.reserve with ⟨reserved, completion⟩
  rw [hreserve] at happended
  cases completion with
  | panicked => simp at happended
  | returned reservedId =>
      simp only [Prod.mk.injEq, Completion.returned.injEq] at happended
      rcases happended with ⟨_, hcontents, hfinish⟩
      unfold AuditFileSink.writeLine at hcontents hfinish
      cases hprint :
          codec.print (.current (entry.record reservedId recordedAt)) with
      | error reason =>
          simp [hprint, AuditFileSink.finish] at hfinish
      | ok text =>
          cases fate with
          | landed =>
              simp only [hprint, AuditFileSink.finish, Except.ok.injEq]
                at hcontents hfinish
              subst hfinish
              exact ⟨text, hprint, hcontents.symm⟩
          | unflushed reason =>
              simp [hprint, AuditFileSink.finish] at hfinish
          | failed written reason =>
              simp [hprint, AuditFileSink.finish] at hfinish

theorem Logged.fileHolds {codec : RecordCodec}
    {events : List AuthorizationEvent} {sink : AuditFileSink}
    {file : List UInt8} (hlogged : Logged codec events sink file) :
    ∃ records, FileHolds codec file records ∧
      List.Forall₂ (fun event record => ∃ eventId recordedAt,
        record = event.entry.record eventId recordedAt) events records := by
  induction hlogged with
  | opened instanceId =>
      exact ⟨[], ⟨[], .nil, rfl⟩, .nil⟩
  | @recorded _ _ _ _ _ event recordedAt _ eventId _ happended ih =>
      rcases ih with ⟨records, hholds, hrecords⟩
      rcases append_eq_ok happended with ⟨text, hprint, hcontents⟩
      refine ⟨records ++ [event.entry.record eventId recordedAt], ?_, ?_⟩
      · rw [hcontents]
        exact hholds.append hprint
      · exact List.rel_append hrecords (.cons ⟨_, _, rfl⟩ .nil)

theorem grantedRecord?_record (event : AuthorizationEvent)
    (eventId : AuditEventId) (recordedAt : WallClockTime) :
    grantedRecord? (event.entry.record eventId recordedAt) =
      event.grantedId? := by
  unfold grantedRecord? AuthorizationEvent.grantedId?
  cases houtcome : event.outcome <;>
    simp [AuditEntry.record, AuthorizationEvent.entry, recordedOutcome,
      houtcome]

theorem releasedRecord?_record (event : AuthorizationEvent)
    (eventId : AuditEventId) (recordedAt : WallClockTime) :
    releasedRecord? (event.entry.record eventId recordedAt) =
      event.releasedId? := by
  unfold releasedRecord? AuthorizationEvent.releasedId?
  cases houtcome : event.outcome <;> cases hrequest : event.request <;>
    simp [AuditEntry.record, AuthorizationEvent.entry, recordedOutcome,
      recordedRequest, houtcome, hrequest]

theorem GrantsFirst.filter {records : List AuditRecord}
    (hfirst : GrantsFirst records) (select : AuditRecord → Bool) :
    GrantsFirst (records.filter select) :=
  fun id => (hfirst id).sublist List.filter_sublist

theorem Logged.readsGrantsFirst_iff {codec : RecordCodec}
    {events : List AuthorizationEvent} {sink : AuditFileSink}
    {file : List UInt8} (hfaithful : codec.Faithful)
    (hlogged : Logged codec events sink file) :
    ReadsGrantsFirst codec file ↔ ∀ id, NeverAfter
      (fun event : AuthorizationEvent => event.releasedId? = some id)
      (fun event => event.grantedId? = some id) events := by
  rcases hlogged.fileHolds with ⟨records, hholds, hrecords⟩
  have hread := hholds.readLog_eq hfaithful
  constructor
  · rintro ⟨scan, hscan, hfirst, -⟩ id
    rw [hread, Except.ok.injEq] at hscan
    subst hscan
    refine (hfirst id).of_forall₂ hrecords.flip ?_ ?_
    · rintro _ event ⟨eventId, recordedAt, rfl⟩ hreleased
      rwa [releasedRecord?_record]
    · rintro _ event ⟨eventId, recordedAt, rfl⟩ hgranted
      rwa [grantedRecord?_record]
  · intro hordered
    have hfirst : GrantsFirst records := by
      intro id
      refine (hordered id).of_forall₂ hrecords ?_ ?_
      · rintro event _ ⟨eventId, recordedAt, rfl⟩ hreleased
        rwa [releasedRecord?_record] at hreleased
      · rintro event _ ⟨eventId, recordedAt, rfl⟩ hgranted
        rwa [grantedRecord?_record] at hgranted
    refine ⟨_, hread, hfirst, ?_⟩
    intro id selected hselected
    simp only [select, foundOrNot] at hselected
    split at hselected
    · contradiction
    · cases hselected
      exact hfirst.filter _

/-! ## The window between storing and recording -/

/-- The lease of which this call is about to record the grant. -/
def Call.pendingGrant? (self : Call) : Option LeaseId :=
  match self.phase with
  | .concluded conclusion => (self.event conclusion).grantedId?
  | _ => none

/-- The lease of which this call is about to record the release. -/
def Call.pendingRelease? (self : Call) : Option LeaseId :=
  match self.phase with
  | .concluded conclusion => (self.event conclusion).releasedId?
  | _ => none

/-- When a call records the release of a lease, no call has still to record
the grant of it. -/
def RecordsReleaseLast (agent : AgentState) : AgentAction → Prop
  | .act i .record =>
      ∀ call ∈ agent.sessions[i]?, call.pendingRelease? ≠ none →
        ∀ other ∈ agent.sessions,
          other.pendingGrant? ≠ call.pendingRelease?
  | _ => True

instance (agent : AgentState) (action : AgentAction) :
    Decidable (RecordsReleaseLast agent action) := by
  unfold RecordsReleaseLast
  split <;> infer_instance

variable {handler : AuthorizationHandler} {state next : LeaseState}
  {call after : Call} {action : CallAction} {new : List Happening}
  {id : LeaseId}

theorem exists_concluded_of_pendingGrant?
    (hpending : call.pendingGrant? = some id) :
    ∃ conclusion expiresAt, call.phase = .concluded conclusion ∧
      conclusion.outcome = .granted id expiresAt := by
  unfold Call.pendingGrant? at hpending
  split at hpending
  next conclusion hphase =>
    unfold AuthorizationEvent.grantedId? at hpending
    split at hpending
    next leaseId expiresAt houtcome =>
      cases hpending
      exact ⟨conclusion, expiresAt, hphase, houtcome⟩
    · contradiction
  · contradiction

theorem exists_concluded_of_pendingRelease?
    (hpending : call.pendingRelease? = some id) :
    ∃ conclusion revocation reply request,
      call.phase = .concluded conclusion ∧
        conclusion.outcome = .released revocation reply ∧
        call.request = .releaseLease request ∧ request.leaseId = id := by
  unfold Call.pendingRelease? at hpending
  split at hpending
  next conclusion hphase =>
    unfold AuthorizationEvent.releasedId? at hpending
    split at hpending
    next revocation reply request houtcome hrequest =>
      cases hpending
      exact ⟨conclusion, revocation, reply, request, hphase, houtcome,
        hrequest, rfl⟩
    · contradiction
  · contradiction

/-- A timed lease is granted and a stored one is released; no other exit has
either of the two outcomes. -/
theorem Concludes.success_cases {conclusion : Conclusion}
    (hconcludes : Concludes handler state call action conclusion) :
    (∃ lease remaining, call.phase = .timed lease remaining ∧
        conclusion.outcome = .granted lease.id lease.expiresAt) ∨
      (conclusion.response = .leaseReleased .released ∧
        ∃ revocation reply,
          conclusion.outcome = .released revocation reply) ∨
      (∀ id expiresAt, conclusion.outcome ≠ .granted id expiresAt) ∧
        ∀ revocation reply,
          conclusion.outcome ≠ .released revocation reply := by
  cases hconcludes with
  | granted htimed => exact Or.inl ⟨_, _, htimed, rfl⟩
  | released hrequest hstored => exact Or.inr (Or.inl ⟨rfl, _, _, rfl⟩)
  | @issueFailed _ _ _ failure =>
      cases failure <;> simp [IssueFailure.conclude]
  | @withdrawn lease outcome hwithdraws =>
      generalize call.phase = phase at hwithdraws
      cases hwithdraws <;> simp
  | _ => simp [handleStatus]

/-- A call which gets to a grant has held the lease until then. -/
theorem held?_of_pendingGrant?
    (hact : handler.act state call action = some (next, after, new))
    (hpending : after.pendingGrant? = some id) :
    ∃ lease, call.phase.held? = some lease ∧ lease.id = id := by
  rcases exists_concluded_of_pendingGrant? hpending with
    ⟨conclusion, expiresAt, hphase, houtcome⟩
  rcases (concludes_of_act hact hphase).success_cases with
    ⟨lease, remaining, htimed, hgranted⟩ | ⟨-, revocation, reply, hreleased⟩ |
    ⟨hnotGranted, -⟩
  · rw [houtcome, AuthorizationOutcome.granted.injEq] at hgranted
    exact ⟨lease, by rw [htimed]; rfl, hgranted.1.symm⟩
  · rw [houtcome] at hreleased
    contradiction
  · exact (hnotGranted _ _ houtcome).elim

/-- A call which gets to a release says so among its events. -/
theorem released_mem_of_pendingRelease?
    (hact : handler.act state call action = some (next, after, new))
    (hpending : after.pendingRelease? = some id) : .released id ∈ new := by
  rcases exists_concluded_of_pendingRelease? hpending with
    ⟨conclusion, revocation, reply, request, hphase, houtcome, hrequest, hid⟩
  have hresponse : conclusion.response = .leaseReleased .released := by
    rcases (concludes_of_act hact hphase).success_cases with
      ⟨lease, remaining, -, hgranted⟩ | ⟨hreleased, -⟩ | ⟨-, hnotReleased⟩
    · rw [houtcome] at hgranted
      contradiction
    · exact hreleased
    · exact (hnotReleased _ _ houtcome).elim
  obtain ⟨phase, hafter, htransition⟩ := reaches_of_act hact
  subst hafter
  simp only [Call.advanceTo] at hphase hrequest
  cases htransition with
  | released harrived hasked hpeer hreleasable =>
      rw [hasked, ClientRequest.releaseLease.injEq] at hrequest
      subst hrequest
      simp [hid]
  | releaseRefused harrived hasked hpeer hnot hrefused =>
      cases hphase
      rw [hrefused] at hresponse
      contradiction
  | @issueFailed _ _ _ failure =>
      cases hphase
      cases failure <;> contradiction
  | recorded hconcluded => contradiction
  | issued => contradiction
  | issuePanicked => contradiction
  | enforced => contradiction
  | enforcePanicked => contradiction
  | timed => contradiction
  | _ =>
      cases hphase
      contradiction

/-- Only the last action of a call records anything. -/
theorem CallTransition.records_cases {phase : Phase}
    (htransition : CallTransition handler state call action next phase new) :
    recordsOf new = [] ∨ ∃ conclusion, call.phase = .concluded conclusion ∧
      phase = .answered conclusion.response ∧ action = .record ∧
      recordsOf new = [call.event conclusion] := by
  cases htransition with
  | recorded hconcluded => exact .inr ⟨_, hconcluded, rfl, rfl, rfl⟩
  | @released _ _ request =>
      left
      cases teardownReply _ request.leaseId _ <;> simp [recordsOf]
  | _ => exact .inl rfl

/-- What a call records it has had to record, and then nothing more. -/
theorem CallTransition.of_mem_recordsOf {phase : Phase}
    {event : AuthorizationEvent}
    (htransition : CallTransition handler state call action next phase new)
    (hevent : event ∈ recordsOf new) :
    call.pendingRelease? = event.releasedId? ∧
      call.pendingGrant? = event.grantedId? ∧
      (call.advanceTo phase).pendingGrant? = none ∧ action = .record := by
  rcases htransition.records_cases with hnone | hrecords
  · rw [hnone] at hevent
    contradiction
  · rcases hrecords with ⟨conclusion, hphase, rfl, haction, hrecords⟩
    rw [hrecords, List.mem_singleton] at hevent
    rw [hevent, Call.pendingRelease?, Call.pendingGrant?, hphase]
    exact ⟨rfl, rfl, rfl, haction⟩

theorem CallTransition.neverAfter_recordsOf {phase : Phase}
    (htransition : CallTransition handler state call action next phase new)
    (first second : AuthorizationEvent → Prop) :
    NeverAfter first second (recordsOf new) := by
  rcases htransition.records_cases with hnone | hrecords
  · rw [hnone]
    exact .nil
  · rcases hrecords with ⟨conclusion, _, _, _, hrecords⟩
    rw [hrecords]
    exact List.pairwise_singleton _ _

/-! ## Runs -/

/-- A recorded release has happened, and the grant of the same lease is not
still to be recorded. -/
structure RecordsInOrder (agent : AgentState) : Prop where
  pending : ∀ {i : ℕ} {call : Call} {id : LeaseId},
    agent.sessions[i]? = some call → call.pendingRelease? = some id →
      ∃ j, (j, .released id) ∈ agent.transcript
  happened : ∀ {event : AuthorizationEvent} {id : LeaseId},
    event ∈ recordedEvents agent → event.releasedId? = some id →
      ∃ j, (j, .released id) ∈ agent.transcript
  settled : ∀ {event : AuthorizationEvent} {id : LeaseId} {i : ℕ}
      {call : Call},
    event ∈ recordedEvents agent → event.releasedId? = some id →
      agent.sessions[i]? = some call → call.pendingGrant? ≠ some id
  ordered : ∀ id, NeverAfter
    (fun event : AuthorizationEvent => event.releasedId? = some id)
    (fun event => event.grantedId? = some id) (recordedEvents agent)

section Runs

variable {actions : List AgentAction} {agent : AgentState} {i : ℕ}

theorem recordedEvents_advance :
    recordedEvents (agent.advance i next after new) =
      recordedEvents agent ++ recordsOf new := by
  simp [recordedEvents, System.advance, recordsOf_append,
    Function.comp_def]

theorem RecordsInOrder.enroll (horder : RecordsInOrder agent)
    (opening : PeerContext × ClientRequest) :
    RecordsInOrder (agent.enroll (handler.program.start opening)) where
  pending := by
    intro j other id hother hpending
    rcases System.getElem?_enroll_eq_some_iff.mp hother with
      ⟨_, heq⟩ | hold
    · rw [heq] at hpending
      contradiction
    · exact horder.pending hold hpending
  happened := horder.happened
  settled := by
    intro event id j other hevent hreleased hother
    rcases System.getElem?_enroll_eq_some_iff.mp hother with
      ⟨_, heq⟩ | hold
    · rw [heq]
      exact Option.some_ne_none id |>.symm
    · exact horder.settled hevent hreleased hold
  ordered := horder.ordered

/-- A lease whose release has happened is not in any call's hands. -/
theorem AuthorizationHandler.Runs.not_held_of_released
    (hruns : handler.Runs actions agent) {j : ℕ}
    (hreleased : (j, .released id) ∈ agent.transcript)
    (hcall : agent.sessions[i]? = some call) {lease : ComputeLease}
    (hheld : call.phase.held? = some lease) : lease.id ≠ id := by
  rintro rfl
  have hledger := hruns.ledgerInvariant
  have hrevoked := (hledger.issuer.released hreleased).2
  have hlive := hledger.holdings.live
    (.inl ⟨i, by rw [held_ledgerOf hcall, hheld]⟩)
  exact hlive.2 hrevoked

theorem RecordsInOrder.advance (horder : RecordsInOrder agent)
    (hruns : handler.Runs actions agent)
    (hguard : RecordsReleaseLast agent (.act i action))
    (hcall : agent.sessions[i]? = some call)
    (hact : handler.act agent.shared call action =
      some (next, after, new)) :
    RecordsInOrder (agent.advance i next after new) := by
  obtain ⟨phase, hafter, htransition⟩ := reaches_of_act hact
  have hkept : ∀ {id : LeaseId},
      (∃ j, (j, .released id) ∈ agent.transcript) →
        ∃ j, (j, .released id) ∈
          (agent.advance i next after new).transcript := by
    rintro id ⟨j, hreleased⟩
    exact ⟨j, System.mem_transcript_advance_iff.mpr (.inl hreleased)⟩
  have hfound := fun {j : ℕ} {other : Call}
      (hother : (agent.advance i next after new).sessions[j]? = some other) =>
    (System.getElem?_advance_eq_some_iff hcall).mp hother
  constructor
  case pending =>
    intro j other id hother hpending
    rcases hfound hother with ⟨rfl, rfl⟩ | ⟨_, hold⟩
    · exact ⟨j, System.mem_transcript_advance_iff.mpr
        (.inr ⟨rfl, released_mem_of_pendingRelease? hact hpending⟩)⟩
    · exact hkept (horder.pending hold hpending)
  case happened =>
    intro event id hevent hreleased
    rw [recordedEvents_advance] at hevent
    rcases List.mem_append.mp hevent with hold | hnew
    · exact hkept (horder.happened hold hreleased)
    · have hpending := (htransition.of_mem_recordsOf hnew).1
      exact hkept (horder.pending hcall (hpending.trans hreleased))
  case settled =>
    intro event id j other hevent hreleased hother hgrant
    rw [recordedEvents_advance] at hevent
    rcases List.mem_append.mp hevent with hold | hnew
    · rcases hfound hother with ⟨rfl, rfl⟩ | ⟨_, hother⟩
      · rcases horder.happened hold hreleased with ⟨k, hhappened⟩
        rcases held?_of_pendingGrant? hact hgrant with ⟨lease, hheld, hid⟩
        exact hruns.not_held_of_released hhappened hcall hheld hid
      · exact horder.settled hold hreleased hother hgrant
    · obtain ⟨hpending, -, hnone, haction⟩ :=
        htransition.of_mem_recordsOf hnew
      rw [hreleased] at hpending
      rcases hfound hother with ⟨rfl, rfl⟩ | ⟨_, hother⟩
      · rw [hafter, hnone] at hgrant
        contradiction
      · subst haction
        refine hguard call hcall ?_ other (List.mem_of_getElem? hother) ?_
        · rw [hpending]
          exact Option.some_ne_none id
        · rw [hgrant, hpending]
  case ordered =>
    intro id
    rw [recordedEvents_advance]
    refine neverAfter_append_iff.mpr
      ⟨horder.ordered id, htransition.neverAfter_recordsOf _ _, ?_⟩
    intro earlier hearlier hreleased later hlater hgranted
    have hpending := (htransition.of_mem_recordsOf hlater).2.1
    exact horder.settled hearlier hreleased hcall (hpending.trans hgranted)

theorem recordsInOrder_of_run
    (hguarded : Guarded RecordsReleaseLast handler.step handler.initial
      actions)
    (hruns : handler.Runs actions agent) : RecordsInOrder agent := by
  refine Program.guarded_run_invariant RecordsReleaseLast RecordsInOrder ?_
    ?_ ?_ hguarded hruns
  · intro agent opening horder
    exact horder.enroll opening
  · intro agent i action call next after new hreachable horder hguard hcall
      hact
    rcases hreachable with ⟨before, hbefore⟩
    exact horder.advance hbefore hguard hcall hact
  · constructor <;>
      simp [recordedEvents, recordsOf, AuthorizationHandler.initial,
        System.initial, NeverAfter]

/-- Where no release is recorded between the storing and the recording of its
grant, the log follows the life of every lease. -/
theorem AuthorizationHandler.Runs.log_follows_lease_life
    {codec : RecordCodec} {sink : AuditFileSink} {file : List UInt8}
    (hruns : handler.Runs actions agent)
    (hguarded : Guarded RecordsReleaseLast handler.step handler.initial
      actions)
    (hfaithful : codec.Faithful)
    (hlogged : Logged codec (recordedEvents agent) sink file) :
    ReadsGrantsFirst codec file :=
  (hlogged.readsGrantsFirst_iff hfaithful).mpr
    (recordsInOrder_of_run hguarded hruns).ordered

end Runs

/-! ## Two threads of one client -/

def lifeRecord (event : AuthorizationEvent) (sequence : UInt64) :
    AuditRecord :=
  event.entry.record ⟨⟨"agent-1"⟩, sequence⟩ ⟨0, 0⟩

def recordText (record : AuditRecord) : List Char :=
  (JsonText.knowing (versionedJson recordJson (.current record))).print
    (versionedJson recordJson (.current record))

def recordDocument (record : AuditRecord) : Document :=
  ⟨record, (recordJson record).merged, recordText record⟩

/-- A codec for two events, which are the first of their sink. -/
def lifeCodec (first second : AuthorizationEvent) : RecordCodec :=
  .ofTable
    [recordDocument (lifeRecord first 0), recordDocument (lifeRecord second 1)]

def lifeFile (first second : AuthorizationEvent) : List UInt8 :=
  TextLines.encode (recordText (lifeRecord first 0) ++ ['\n']) ++
    TextLines.encode (recordText (lifeRecord second 1) ++ ['\n'])

theorem recordText_plain (record : AuditRecord) :
    '\n' ∉ recordText record ∧ '\r' ∉ recordText record ∧
      (recordText record).all isWhitespace = false := by
  have hvisible : Visible (recordText record) :=
    visible_compact (JsonText.plain_knowing _) _
  refine ⟨hvisible.not_mem (by decide), hvisible.not_mem (by decide), ?_⟩
  rw [← Bool.not_eq_true]
  exact not_isBlank_print _

theorem lifeCodec_faithful {first second : AuthorizationEvent}
    (hdistinct : recordText (lifeRecord first 0) ≠
      recordText (lifeRecord second 1)) :
    (lifeCodec first second).Faithful := by
  apply RecordCodec.faithful_ofTable
  · simpa [recordDocument] using hdistinct
  · intro document hdocument
    rcases List.mem_pair.mp hdocument with rfl | rfl <;>
      exact recordText_plain _

theorem print_lifeCodec_first (first second : AuthorizationEvent) :
    (lifeCodec first second).print (.current (lifeRecord first 0)) =
      .ok (recordText (lifeRecord first 0)) := by
  simp [lifeCodec, RecordCodec.ofTable, Versioned.current, recordDocument]

theorem print_lifeCodec_second (first second : AuthorizationEvent) :
    (lifeCodec first second).print (.current (lifeRecord second 1)) =
      .ok (recordText (lifeRecord second 1)) := by
  have hdistinct : lifeRecord first 0 ≠ lifeRecord second 1 := by
    intro hsame
    have hid := congrArg AuditRecord.eventId hsame
    simp [lifeRecord, AuditEntry.record] at hid
  simp [lifeCodec, RecordCodec.ofTable, Versioned.current, recordDocument,
    hdistinct]

/-- An append of which the line lands whole. -/
theorem append_printed {codec : RecordCodec} {sink next : AuditFileSink}
    {file : List UInt8} {entry : AuditEntry} {recordedAt : WallClockTime}
    {eventId : AuditEventId} {text : List Char}
    (hreserve : sink.reserve = (next, .returned eventId))
    (hprint : codec.print (.current (entry.record eventId recordedAt)) =
      .ok text) :
    sink.append codec file entry recordedAt .landed =
      (next, file ++ TextLines.encode (text ++ ['\n']),
        .returned (.ok eventId)) := by
  simp only [AuditFileSink.append, hreserve, AuditFileSink.writeLine, hprint,
    AuditFileSink.finish]

theorem logged_lifeCodec (first second : AuthorizationEvent) :
    Logged (lifeCodec first second) [first, second]
      ⟨⟨"agent-1"⟩, 2, 0⟩ (lifeFile first second) := by
  have hopened : Logged (lifeCodec first second) []
      (.fromWriter ⟨"agent-1"⟩) [] := .opened _
  have hreserve : (⟨⟨"agent-1"⟩, 0, 0⟩ : AuditFileSink).reserve =
      (⟨⟨"agent-1"⟩, 1, 0⟩, .returned ⟨⟨"agent-1"⟩, 0⟩) := by decide
  have hreserve' : (⟨⟨"agent-1"⟩, 1, 0⟩ : AuditFileSink).reserve =
      (⟨⟨"agent-1"⟩, 2, 0⟩, .returned ⟨⟨"agent-1"⟩, 1⟩) := by decide
  have hone : Logged (lifeCodec first second) [first] ⟨⟨"agent-1"⟩, 1, 0⟩
      (TextLines.encode (recordText (lifeRecord first 0) ++ ['\n'])) :=
    hopened.recorded
      (append_printed hreserve (print_lifeCodec_first first second))
  exact hone.recorded
    (append_printed hreserve' (print_lifeCodec_second first second))

/-- The worker releases its lease once it has been told of it. -/
def orderlyActions : List AgentAction :=
  askActions workerHash ++
    [.act 1 (.release ⟨2⟩ (.returned (.ok .allowed))), .act 1 .record]

def orderlyState : AgentState :=
  sampleHandler.finalState orderlyActions (by decide)

theorem runs_orderlyState :
    sampleHandler.Runs orderlyActions orderlyState := runs_finalState _

/-- Another thread of the worker guesses the id of the lease, and releases it
and has that recorded before the grant is. -/
def hastyActions : List AgentAction :=
  (grantActions workerHash).dropLast ++
    [.start (workerPeer workerHash, .releaseLease ⟨sampleId⟩),
      .act 1 (.release ⟨2⟩ (.returned (.ok .allowed))),
      .act 1 .record,
      .act 0 .record]

def hastyState : AgentState :=
  sampleHandler.finalState hastyActions (by decide)

def grantEvent : AuthorizationEvent where
  operation := .requestLease
  request := sampleLeaseRequest
  peer := workerPeer workerHash
  outcome := .granted sampleId ⟨60⟩
  response := .leaseGranted sampleView

def releaseEvent : AuthorizationEvent where
  operation := .releaseLease
  request := .releaseLease ⟨sampleId⟩
  peer := workerPeer workerHash
  outcome := .released .revoked (some .allowed)
  response := .leaseReleased .released

theorem recordedEvents_orderlyState :
    recordedEvents orderlyState = [grantEvent, releaseEvent] := by decide

theorem recordedEvents_hastyState :
    recordedEvents hastyState = [releaseEvent, grantEvent] := by decide

theorem orderlyState_log_follows_lease_life :
    ReadsGrantsFirst (lifeCodec grantEvent releaseEvent)
      (lifeFile grantEvent releaseEvent) :=
  runs_orderlyState.log_follows_lease_life
    (by decide) (lifeCodec_faithful (by decide +kernel))
    (recordedEvents_orderlyState ▸ logged_lifeCodec grantEvent releaseEvent)

theorem release_can_be_logged_before_grant :
    ¬∀ (handler : AuthorizationHandler) (actions : List AgentAction)
        (agent : AgentState) (codec : RecordCodec) (sink : AuditFileSink)
        (file : List UInt8),
      handler.Runs actions agent → codec.Faithful →
        Logged codec (recordedEvents agent) sink file →
          ReadsGrantsFirst codec file := by
  intro hall
  have hlogged := logged_lifeCodec releaseEvent grantEvent
  have hfaithful : (lifeCodec releaseEvent grantEvent).Faithful :=
    lifeCodec_faithful (by decide +kernel)
  have hreads := hall sampleHandler hastyActions hastyState _ _ _
    (runs_finalState _) hfaithful (recordedEvents_hastyState ▸ hlogged)
  have hordered := (hlogged.readsGrantsFirst_iff hfaithful).mp hreads sampleId
  rw [NeverAfter, List.pairwise_pair] at hordered
  exact hordered rfl rfl

end Eltanin.Agent
