import Eltanin.DaemonExchange
import Eltanin.LinuxCollector

/-!
# Grants on Linux

What a lease which a client is granted says about its process: the kernel has
kept a credential of the connection, `/proc` agrees with it, and it has shown
everything that some rule for the request requires and something against every
rule which denies it.  As no executable is hashed, no condition on a hash can
be shown or contradicted.
-/

namespace Eltanin.Linux

open Eltanin.Core

/-- Some rule which allows the request was shown to hold without any hash, and
every rule which denies it was contradicted in another field. -/
structure ShownAllowed (document : PolicyDocument)
    (context : ExecutionContext) (request : ComputeRequest) : Prop where
  allowed : ∃ rule ∈ document.rules, rule.effect = .allow ∧
    rule.Relevant request ∧ ∀ condition ∈ rule.conditions,
      condition.kind ≠ .executableHash ∧ condition.Shown context
  undenied : ∀ rule ∈ document.rules, rule.effect = .deny →
    rule.Relevant request → ∃ condition ∈ rule.conditions,
      condition.kind ≠ .executableHash ∧ condition.Contradicted context

section Collected

variable (debug : List Char → String) {host : ℕ → Proc} {pid : UInt32}

theorem kind_ne_executableHash_of_shown {condition : Condition}
    (hshown : condition.Shown (collectExecutionContext debug host pid)) :
    condition.kind ≠ .executableHash := by
  cases condition with
  | executableHash m => exact absurd hshown nofun
  | uid m => simp [Condition.kind]
  | gid m => simp [Condition.kind]
  | executablePath m => simp [Condition.kind]
  | cgroupPath m => simp [Condition.kind]

theorem kind_ne_executableHash_of_contradicted {condition : Condition}
    (hcontradicted :
      condition.Contradicted (collectExecutionContext debug host pid)) :
    condition.kind ≠ .executableHash := by
  cases condition with
  | executableHash m =>
      rcases hcontradicted with ⟨value, hvalue, -⟩
      contradiction
  | uid m => simp [Condition.kind]
  | gid m => simp [Condition.kind]
  | executablePath m => simp [Condition.kind]
  | cgroupPath m => simp [Condition.kind]

/-- The decision of a policy about a collected context. -/
theorem allow_iff_shownAllowed (policy : PolicySet)
    (request : ComputeRequest) :
    (policy.evaluate (collectExecutionContext debug host pid)
        request).effect = .allow ↔
      ShownAllowed policy.document (collectExecutionContext debug host pid)
        request := by
  rw [policy.allow_iff_shown request
    (collectExecutionContext_fromKernel debug host pid)]
  constructor
  · rintro ⟨⟨rule, hrule, heffect, hrelevant, hshown⟩, hdenied⟩
    constructor
    · refine ⟨rule, hrule, heffect, hrelevant, ?_⟩
      intro condition hcondition
      have hcase := hshown condition hcondition
      exact ⟨kind_ne_executableHash_of_shown debug hcase, hcase⟩
    · intro other hother heffect hrelevant
      rcases hdenied other hother heffect hrelevant with
        ⟨condition, hcondition, hcase⟩
      exact ⟨condition, hcondition,
        kind_ne_executableHash_of_contradicted debug hcase, hcase⟩
  · rintro ⟨⟨rule, hrule, heffect, hrelevant, hshown⟩, hdenied⟩
    constructor
    · exact ⟨rule, hrule, heffect, hrelevant, fun condition hcondition =>
        (hshown condition hcondition).2⟩
    · intro other hother heffect hrelevant
      rcases hdenied other hother heffect hrelevant with
        ⟨condition, hcondition, -, hcase⟩
      exact ⟨condition, hcondition, hcase⟩

/-- What the kernel and `/proc` have said about the peer of a request. -/
structure ShownPeer (host : ℕ → Proc) (peercred : Except String UCred)
    (document : PolicyDocument) (request : ComputeRequest)
    (ucred : UCred) : Prop where
  credential : peercred = .ok ucred
  mapped : ucred.processId ≠ 0
  agrees : UidAgrees ucred.uid
    (readStatusIds debug ucred.processId "Uid:"
      ((host 101).status ucred.processId)).1
    (readStatusIds debug ucred.processId "Uid:"
      ((host 101).status ucred.processId)).2
  allowed : ShownAllowed document
    (collectExecutionContext debug host ucred.processId) request

/-- A collected peer is consistent and allowed exactly when it was shown to be
what the policy requires. -/
theorem consistent_and_allowed_iff {peercred : Except String UCred}
    {peer : PeerContext} (policy : PolicySet) (request : ComputeRequest)
    (hpeer : collectPeerContext debug host peercred = .ok peer) :
    peer.consistency = .consistent ∧
        (policy.evaluate peer.observed request).effect = .allow ↔
      ∃ ucred, ShownPeer debug host peercred policy.document request
        ucred := by
  have hauthorizable : peer.consistency = .consistent ↔
      peer.authorizable = some peer.observed := by
    rw [PeerContext.authorizable_eq_some_iff, and_iff_left rfl]
  rw [hauthorizable, authorizable_collectPeerContext debug hpeer]
  constructor
  · rintro ⟨⟨ucred, hcredential, hmapped, hobserved, hagrees⟩, hallow⟩
    rw [hobserved, allow_iff_shownAllowed] at hallow
    exact ⟨ucred, hcredential, hmapped, hagrees, hallow⟩
  · rintro ⟨ucred, hshown⟩
    have hcredential := hshown.credential
    have hobserved : peer.observed =
        collectExecutionContext debug host ucred.processId := by
      simp only [collectPeerContext, hcredential, if_neg hshown.mapped,
        Except.ok.injEq] at hpeer
      rw [← hpeer]
      rfl
    rw [hobserved, allow_iff_shownAllowed]
    exact ⟨⟨ucred, hcredential, hshown.mapped, rfl, hshown.agrees⟩,
      hshown.allowed⟩

end Collected

end Eltanin.Linux

namespace Eltanin.Agent

open Eltanin.Core Protocol Eltanin.Linux Eltanin.Cli

/-- The peer of a connection, as the platform's source derives it. -/
def DerivedOnLinux (debug : List Char → String) (host : ℕ → Proc)
    (peercred : Except String UCred) (reception : Reception) : Prop :=
  reception.peer = (collectPeerContext debug host peercred).toOption

namespace AgentServer.Runs

variable {self : AgentServer} {actions : List DaemonAction} {daemon : Daemon}
  {client : Client} {reception : Reception} {call : Option ℕ}
  {served : Served} {framed : List UInt8} {i : ℕ}
  {debug : List Char → String} {host : ℕ → Proc}
  {peercred : Except String UCred} {view : LeaseView}

theorem granted_peer_was_shown (hruns : self.Runs actions daemon)
    (hended : daemon.services[i]? = some (.ended reception call served))
    (hover : ExchangedOver self.codec client reception served framed)
    (hderived : DerivedOnLinux debug host peercred reception)
    (hresult : client.result self.codec = .ok (.leaseGranted view)) :
    ∃ n current ucred asked now later lease event, call = some n ∧
      AnsweredBy daemon client.request reception.peer n current
        (.returned (.leaseGranted view)) ∧
      client.request = .requestLease asked ∧
      ShownPeer debug host peercred self.handler.policy.document
        ⟨asked.resource, asked.action⟩ ucred ∧
      Grants self.handler current.peer asked now later lease view ∧
      daemon.agent.wordOf n =
        grantEvents now later lease ++ [.recorded event] := by
  obtain ⟨n, current, hcall, hby⟩ :=
    hruns.answered_of_exchange hended hover hresult nofun
  obtain ⟨asked, now, later, lease, event, hasked, hgrants, hword⟩ :=
    hruns.grant_of_answered hby
  have hpeer : collectPeerContext debug host peercred = .ok current.peer := by
    have hfound : some current.peer =
        (collectPeerContext debug host peercred).toOption := by
      rw [← hby.peer, hderived]
    cases hcollect : collectPeerContext debug host peercred with
    | error error => simp [hcollect, Except.toOption] at hfound
    | ok peer =>
        simp only [hcollect, Except.toOption, Option.some.injEq] at hfound
        rw [hfound]
  obtain ⟨ucred, hshown⟩ := (consistent_and_allowed_iff debug
    self.handler.policy ⟨asked.resource, asked.action⟩ hpeer).mp
      ⟨hgrants.issued.consistent, hgrants.issued.allowed⟩
  exact ⟨n, current, ucred, asked, now, later, lease, event, hcall, hby,
    hby.request ▸ hasked, hshown, hgrants, hword⟩

end AgentServer.Runs

end Eltanin.Agent
