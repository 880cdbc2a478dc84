import Eltanin.KernelEvidence
import Eltanin.LinuxProcess
import Eltanin.PeerConsistencyVerdict

/-!
# Peers on Linux

The collector of a peer's context reads the credential which the kernel has
kept of its connection, and then one file of `/proc` after the other.  Nothing
holds these reads together: each of them happens at an instant of its own, and
finds what `/proc` says of the process id then.
-/

namespace Eltanin.Core

inductive PeerCredentialError where
  | io (reason : String)
  | unsupportedPlatform
  deriving DecidableEq, Repr

end Eltanin.Core

namespace Eltanin.Linux

open Eltanin.Core TextLines

/-! ## The remaining readers -/

/-- What all reads of `/proc` find at one instant. -/
structure Proc extends ProcFs where
  status : UInt32 → Except String (List UInt8)
  cgroup : UInt32 → Except String (List UInt8)

def afterColon (text : List Char) : Option (List Char) :=
  match text.dropWhile (· ≠ ':') with
  | [] => none
  | _ :: rest => some rest

/-- `last.splitn(3, ':').nth(2)`. -/
def thirdPart (line : List Char) : Option (List Char) :=
  (afterColon line).bind afterColon

section Collector

-- How `{:?}` shows a text.
variable (debug : List Char → String)

def cgroupPath (pid : UInt32) (file : Except String (List UInt8)) :
    Evidence String :=
  match readToString file with
  | .error error => .missing s!"read /proc/{pid}/cgroup: {error}"
  | .ok raw =>
      match (textLines raw).getLast? with
      | none => .missing s!"/proc/{pid}/cgroup is empty"
      | some last =>
          match thirdPart last with
          | some path => .present (String.ofList path) .kernelObserved
          | none => .missing s!"malformed /proc/{pid}/cgroup line: {debug last}"

/-- `read_status_id`: the real id alone. -/
def readStatusId (pid : UInt32) (label : String)
    (file : Except String (List UInt8)) : Evidence UInt32 :=
  (readStatusIds debug pid label file).1

def executableHash : Evidence String :=
  .missing "executable hashing not implemented by this collector"

/-! ## The collector -/

-- What is found at each instant.  Those from 4 to 99 are for the ancestors.
variable (host : ℕ → Proc)

def collectWorkloadIdentity (pid : UInt32) : WorkloadIdentity where
  pid := pid
  processStart := processStart debug pid ((host 0).stat pid)
  uid := readStatusId debug pid "Uid:" ((host 1).status pid)
  gid := readStatusId debug pid "Gid:" ((host 2).status pid)
  executablePath := executablePath pid (host 3).toProcFs
  executableHash := executableHash
  ancestry := ancestry debug (fun read => (host (4 + read)).toProcFs) pid

def collectExecutionContext (pid : UInt32) : ExecutionContext where
  workload := collectWorkloadIdentity debug host pid
  cgroupPath := cgroupPath debug pid ((host 100).cgroup pid)
  namespaceHint := .unsupported
  containerHint := .unsupported
  sessionOrigin := .unsupported

/-- What `SO_PEERCRED` reports. -/
structure UCred where
  pid : Int32
  pid_nonzero : pid ≠ 0
  uid : UInt32
  gid : UInt32

/-- `u32::try_from(pid).unwrap_or(0)`. -/
def UCred.processId (ucred : UCred) : UInt32 :=
  if 0 ≤ ucred.pid then ucred.pid.toUInt32 else 0

def collectPeerContext (peercred : Except String UCred) :
    Except PeerCredentialError PeerContext :=
  match peercred with
  | .error reason => .error (.io reason)
  | .ok ucred =>
      let pid := ucred.processId
      let credential : PeerCredential := ⟨pid, ucred.uid, ucred.gid⟩
      if pid = 0 then
        .ok (.peerUnmapped credential (collectExecutionContext debug host 0))
      else
        let observed := collectExecutionContext debug host pid
        let ids := readStatusIds debug pid "Uid:" ((host 101).status pid)
        .ok (.fromKernelObservation credential observed ids.1 ids.2)

end Collector

/-! ## Where the evidence comes from -/

section Evidence

variable (debug : List Char → String) {host : ℕ → Proc} {pid : UInt32}

theorem statusId_fromKernel (label : String) (line : List Char)
    (raw : Option (List Char)) (which : String) :
    (statusId debug label line raw which).FromKernel := by
  unfold statusId
  split
  · exact Evidence.fromKernel_present _
  · exact Evidence.fromKernel_missing _
  · exact Evidence.fromKernel_missing _

theorem readStatusIds_fromKernel (pid : UInt32) (label : String)
    (file : Except String (List UInt8)) :
    (readStatusIds debug pid label file).1.FromKernel ∧
      (readStatusIds debug pid label file).2.FromKernel := by
  unfold readStatusIds
  split
  · exact ⟨Evidence.fromKernel_missing _, Evidence.fromKernel_missing _⟩
  · split
    · exact ⟨Evidence.fromKernel_missing _, Evidence.fromKernel_missing _⟩
    · exact ⟨statusId_fromKernel debug _ _ _ _,
        statusId_fromKernel debug _ _ _ _⟩

theorem executablePath_fromKernel (pid : UInt32) (fs : ProcFs) :
    (executablePath pid fs).FromKernel := by
  unfold executablePath
  split
  · exact Evidence.fromKernel_present _
  · exact Evidence.fromKernel_missing _

theorem cgroupPath_fromKernel (pid : UInt32)
    (file : Except String (List UInt8)) :
    (cgroupPath debug pid file).FromKernel := by
  unfold cgroupPath
  split
  · exact Evidence.fromKernel_missing _
  · split
    · exact Evidence.fromKernel_missing _
    · split
      · exact Evidence.fromKernel_present _
      · exact Evidence.fromKernel_missing _

theorem collectExecutionContext_fromKernel (host : ℕ → Proc) (pid : UInt32) :
    (collectExecutionContext debug host pid).FromKernel where
  uid := (readStatusIds_fromKernel debug _ _ _).1
  gid := (readStatusIds_fromKernel debug _ _ _).1
  executablePath := executablePath_fromKernel _ _
  executableHash := Evidence.fromKernel_missing _
  cgroupPath := cgroupPath_fromKernel debug _ _

/-- A peer may be used as evidence when the kernel knows its process, and the
user ids which `/proc` shows last agree with its credential. -/
theorem authorizable_collectPeerContext {peercred : Except String UCred}
    {peer : PeerContext} {observed : ExecutionContext}
    (hpeer : collectPeerContext debug host peercred = .ok peer) :
    peer.authorizable = some observed ↔
      ∃ ucred, peercred = .ok ucred ∧ ucred.processId ≠ 0 ∧
        observed = collectExecutionContext debug host ucred.processId ∧
        UidAgrees ucred.uid
          (readStatusIds debug ucred.processId "Uid:"
            ((host 101).status ucred.processId)).1
          (readStatusIds debug ucred.processId "Uid:"
            ((host 101).status ucred.processId)).2 := by
  cases peercred with
  | error reason => contradiction
  | ok ucred =>
      simp only [Except.ok.injEq, exists_eq_left']
      by_cases hpid : ucred.processId = 0
      · simp only [collectPeerContext, if_pos hpid, Except.ok.injEq] at hpeer
        rw [← hpeer, PeerContext.authorizable_peerUnmapped]
        simp [hpid]
      · simp only [collectPeerContext, if_neg hpid, Except.ok.injEq] at hpeer
        rw [← hpeer]
        constructor
        · intro hobserved
          have hsame : collectExecutionContext debug host ucred.processId =
              observed :=
            (PeerContext.authorizable_eq_some_iff.mp hobserved).2
          rw [← hsame, PeerContext.authorizable_fromKernelObservation]
            at hobserved
          exact ⟨hpid, hsame.symm, hobserved⟩
        · rintro ⟨-, rfl, hagrees⟩
          exact PeerContext.authorizable_fromKernelObservation.mpr hagrees

end Evidence

end Eltanin.Linux
