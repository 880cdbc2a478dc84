import Eltanin.IdentityModel
import Mathlib.Algebra.Group.Nat.Defs

/-!
# What macOS says about a process

The collector asks `libproc`, which knows processes by a signed number and
answers for all of a process at once.
-/

namespace Eltanin.Macos

open Eltanin.Core

structure BsdInfo where
  pbiPpid : UInt32
  pbiRuid : UInt32
  pbiRgid : UInt32
  pbiStartTvsec : UInt64
  pbiStartTvusec : UInt64
  deriving DecidableEq, Repr

/-- What `libproc` answers to one question. -/
structure LibProc where
  pidinfo : Int32 → Except String BsdInfo
  pidpath : Int32 → Except String String

/-- `i32::try_from`. -/
def i32TryFrom (pid : UInt32) : Except String Int32 :=
  if pid.toNat < 2 ^ 31 then .ok (Int32.ofNat pid.toNat)
  else .error "out of range integral type conversion attempted"

def bsdInfo (lib : LibProc) (pid : UInt32) : Except String BsdInfo :=
  match i32TryFrom pid with
  | .error error => .error s!"pid {pid} out of range: {error}"
  | .ok signedPid => lib.pidinfo signedPid

/-- `u64::saturating_mul` and `u64::saturating_add`. -/
def saturate (n : ℕ) : UInt64 := UInt64.ofNat (min n (UInt64.size - 1))

def processStart (info : BsdInfo) : Evidence ProcessStartToken :=
  let seconds := saturate (info.pbiStartTvsec.toNat * 1000000)
  .present ⟨saturate (seconds.toNat + info.pbiStartTvusec.toNat)⟩
    .kernelObserved

def executablePath (lib : LibProc) (pid : UInt32) : Evidence String :=
  match i32TryFrom pid with
  | .error error => .missing s!"pid {pid} out of range: {error}"
  | .ok signedPid =>
      match lib.pidpath signedPid with
      | .ok path => .present path .kernelObserved
      | .error error => .missing s!"proc_pidpath({pid}): {error}"

def maxAncestryDepth : ℕ := 32

/-- The loop of `ancestry`.  Its rounds ask three times each, and every answer
may be another one. -/
def ancestryLoop (lib : ℕ → LibProc) :
    ℕ → ℕ → List ProcessAncestor → List UInt32 → UInt32 →
      List ProcessAncestor
  | 0, _, out, _, _ => out
  | rounds + 1, round, out, seen, current =>
      match bsdInfo (lib (3 * round)) current with
      | .error _ => out
      | .ok info =>
          let parent := info.pbiPpid
          if parent = 0 ∨ parent ∈ seen then out
          else
            let ancestor : ProcessAncestor :=
              { pid := parent
                start :=
                  match bsdInfo (lib (3 * round + 1)) parent with
                  | .ok parentInfo => processStart parentInfo
                  | .error _ =>
                      .missing (s!"proc_pidinfo({parent}) failed while " ++
                        "walking ancestry")
                executablePath :=
                  executablePath (lib (3 * round + 2)) parent }
            ancestryLoop lib rounds (round + 1) (out ++ [ancestor])
              (parent :: seen) parent

def ancestry (lib : ℕ → LibProc) (startPid : UInt32) :
    List ProcessAncestor :=
  ancestryLoop lib maxAncestryDepth 0 [] [startPid] startPid

end Eltanin.Macos
