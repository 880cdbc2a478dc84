import Eltanin.BoundedWalk
import Eltanin.LinuxProcess
import Eltanin.MacosProcess

/-!
# The ancestors of a process

Both collectors walk from a process to its parents for at most 32 rounds.
What they are told on the way may change from read to read, so nothing is
assumed of it but that it ends a round by an answer or by a failure.
-/

namespace Eltanin

open Eltanin.Core BoundedWalk

/-! ## The two loops as one walk -/

namespace Linux

variable (debug : List Char → String)

/-- Whom the first read of a round names as the parent of a process. -/
def parentAnswers (fs : ℕ → ProcFs) (round : ℕ) (pid : UInt32) :
    Option UInt32 :=
  parentPid debug pid ((fs (3 * round)).stat pid)

/-- What the other two reads of a round say about the parent. -/
def ancestorAt (fs : ℕ → ProcFs) (round : ℕ) (pid : UInt32) :
    ProcessAncestor where
  pid := pid
  start := processStart debug pid ((fs (3 * round + 1)).stat pid)
  executablePath := executablePath pid (fs (3 * round + 2))

theorem ancestryLoop_eq_collect (fs : ℕ → ProcFs) (rounds round : ℕ)
    (out : List ProcessAncestor) (seen : List UInt32) (current : UInt32) :
    ancestryLoop debug fs rounds round out seen current =
      collect (parentAnswers debug fs) (ancestorAt debug fs) 0 rounds round
        out seen current := by
  induction rounds generalizing round out seen current with
  | zero => rfl
  | succ rounds ih =>
      rw [ancestryLoop, collect, parentAnswers]
      cases parentPid debug current ((fs (3 * round)).stat current) with
      | none => rfl
      | some parent =>
          simp only [ih]
          rfl

theorem pids_ancestry (fs : ℕ → ProcFs) (startPid : UInt32) :
    (ancestry debug fs startPid).map ProcessAncestor.pid =
      walk (parentAnswers debug fs) 0 maxAncestryDepth 0 [startPid]
        startPid := by
  rw [ancestry, ancestryLoop_eq_collect]
  exact map_collect (fun _ _ => rfl) _ _ [] [startPid] startPid

theorem ancestry_congr {fs other : ℕ → ProcFs}
    (hagree : ∀ read < 3 * maxAncestryDepth, fs read = other read)
    (startPid : UInt32) :
    ancestry debug fs startPid = ancestry debug other startPid := by
  rw [ancestry, ancestry, ancestryLoop_eq_collect, ancestryLoop_eq_collect]
  apply collect_congr
  · intro round hround
    funext pid
    rw [parentAnswers, parentAnswers, hagree (3 * round) (by omega)]
  · intro round hround
    funext pid
    rw [ancestorAt, ancestorAt, hagree (3 * round + 1) (by omega),
      hagree (3 * round + 2) (by omega)]

end Linux

namespace Macos

/-- Whom the first question of a round names as the parent of a process. -/
def parentAnswers (lib : ℕ → LibProc) (round : ℕ) (pid : UInt32) :
    Option UInt32 :=
  match bsdInfo (lib (3 * round)) pid with
  | .ok info => some info.pbiPpid
  | .error _ => none

/-- What the other two questions of a round find out about the parent. -/
def ancestorAt (lib : ℕ → LibProc) (round : ℕ) (pid : UInt32) :
    ProcessAncestor where
  pid := pid
  start :=
    match bsdInfo (lib (3 * round + 1)) pid with
    | .ok info => processStart info
    | .error _ =>
        .missing (s!"proc_pidinfo({pid}) failed while " ++
          "walking ancestry")
  executablePath := executablePath (lib (3 * round + 2)) pid

theorem ancestryLoop_eq_collect (lib : ℕ → LibProc) (rounds round : ℕ)
    (out : List ProcessAncestor) (seen : List UInt32) (current : UInt32) :
    ancestryLoop lib rounds round out seen current =
      collect (parentAnswers lib) (ancestorAt lib) 0 rounds round out seen
        current := by
  induction rounds generalizing round out seen current with
  | zero => rfl
  | succ rounds ih =>
      rw [ancestryLoop, collect, parentAnswers]
      cases bsdInfo (lib (3 * round)) current with
      | error error => rfl
      | ok info =>
          simp only [ih]
          rfl

theorem pids_ancestry (lib : ℕ → LibProc) (startPid : UInt32) :
    (ancestry lib startPid).map ProcessAncestor.pid =
      walk (parentAnswers lib) 0 maxAncestryDepth 0 [startPid]
        startPid := by
  rw [ancestry, ancestryLoop_eq_collect]
  exact map_collect (fun _ _ => rfl) _ _ [] [startPid] startPid

theorem ancestry_congr {lib other : ℕ → LibProc}
    (hagree : ∀ read < 3 * maxAncestryDepth, lib read = other read)
    (startPid : UInt32) :
    ancestry lib startPid = ancestry other startPid := by
  rw [ancestry, ancestry, ancestryLoop_eq_collect, ancestryLoop_eq_collect]
  apply collect_congr
  · intro round hround
    funext pid
    rw [parentAnswers, parentAnswers, hagree (3 * round) (by omega)]
  · intro round hround
    funext pid
    rw [ancestorAt, ancestorAt, hagree (3 * round + 1) (by omega),
      hagree (3 * round + 2) (by omega)]

end Macos

/-! ## What is known of the ancestors -/

/-- The pids from a process upwards, one the parent of the one before, up to
one whose parent is 0 or is not known; or only the first 32 of them. -/
structure ParentChain (parent : UInt32 → Option UInt32) (startPid : UInt32)
    (chain : List UInt32) : Prop where
  parents : List.IsChain (fun pid above => parent pid = some above)
    (startPid :: chain)
  distinct : chain.Nodup
  nonzero : 0 ∉ chain
  upwards : startPid ∉ chain
  ends : chain.length < 32 →
    parent (chain.getLastD startPid) = none ∨
      parent (chain.getLastD startPid) = some 0

/-- What a list of pids collected from these answers is. -/
structure BoundedAncestry (answers : ℕ → UInt32 → Option UInt32)
    (startPid : UInt32) (pids : List UInt32) : Prop where
  length_le : pids.length ≤ 32
  distinct : pids.Nodup
  nonzero : 0 ∉ pids
  not_start : startPid ∉ pids
  complete : ∀ (parent : UInt32 → Option UInt32) (chain : List UInt32),
    (∀ round pid, answers round pid = parent pid) →
    ParentChain parent startPid chain → pids = chain.take 32

theorem boundedAncestry_walk (answers : ℕ → UInt32 → Option UInt32)
    (startPid : UInt32) :
    BoundedAncestry answers startPid
      (walk answers 0 32 0 [startPid] startPid) where
  length_le := length_walk_le answers 0 32 0 [startPid] startPid
  distinct := nodup_walk answers 0 32 0 [startPid] startPid
  nonzero := fun hmem => (fresh_of_mem_walk answers 0 hmem).1 rfl
  not_start := fun hmem =>
    (fresh_of_mem_walk answers 0 hmem).2 List.mem_cons_self
  complete := by
    intro parent chain hfixed hchain
    have hseen : ∀ pid ∈ chain, pid ∉ [startPid] := by
      intro pid hpid hstart
      rw [List.mem_singleton] at hstart
      exact hchain.upwards (hstart ▸ hpid)
    exact walk_eq_take hfixed hchain.parents hchain.distinct hchain.nonzero
      hseen hchain.ends

/-- Both walks are bounded, name no process twice, and are complete as far as
they go; and for the same answers they name the same processes. -/
theorem ancestry_bounded_and_complete (debug : List Char → String)
    (fs : ℕ → Linux.ProcFs) (lib : ℕ → Macos.LibProc) (startPid : UInt32) :
    BoundedAncestry (Linux.parentAnswers debug fs) startPid
        ((Linux.ancestry debug fs startPid).map ProcessAncestor.pid) ∧
    BoundedAncestry (Macos.parentAnswers lib) startPid
        ((Macos.ancestry lib startPid).map ProcessAncestor.pid) ∧
    (∀ other : ℕ → Linux.ProcFs, (∀ read < 3 * 32, fs read = other read) →
      Linux.ancestry debug fs startPid =
        Linux.ancestry debug other startPid) ∧
    (∀ other : ℕ → Macos.LibProc, (∀ read < 3 * 32, lib read = other read) →
      Macos.ancestry lib startPid = Macos.ancestry other startPid) ∧
    ((∀ round pid, Linux.parentAnswers debug fs round pid =
        Macos.parentAnswers lib round pid) →
      (Linux.ancestry debug fs startPid).map ProcessAncestor.pid =
        (Macos.ancestry lib startPid).map ProcessAncestor.pid) := by
  refine ⟨?_, ?_, ?_, ?_, ?_⟩
  · rw [Linux.pids_ancestry]
    exact boundedAncestry_walk _ startPid
  · rw [Macos.pids_ancestry]
    exact boundedAncestry_walk _ startPid
  · intro other hagree
    exact Linux.ancestry_congr debug hagree startPid
  · intro other hagree
    exact Macos.ancestry_congr hagree startPid
  · intro hsame
    have hanswers : Linux.parentAnswers debug fs = Macos.parentAnswers lib :=
      funext fun round => funext (hsame round)
    rw [Linux.pids_ancestry, Macos.pids_ancestry, hanswers]
    rfl

end Eltanin
