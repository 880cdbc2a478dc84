import Mathlib.Data.List.Pairwise
import Mathlib.Data.List.Range

/-!
# Numbered attempts

A counter numbers attempts which are served one at a time.  An attempt gets
its number when it enters, and afterwards it lands or is lost; its number is
used up either way.  So what has landed is in the order of the numbers, and a
number below one which has landed is lost exactly when it has not landed.
-/

namespace NumberedAttempts

inductive Attempt where
  | entered (number : ℕ)
  | landed (number : ℕ)
  | lost (number : ℕ)
  deriving DecidableEq, Repr

/-- The log of a counter which has given out `count` numbers, where the last
attempt may still be `pending`. -/
inductive Served : List Attempt → ℕ → Bool → Prop
  | empty : Served [] 0 false
  | enter {log : List Attempt} {count : ℕ}
      (hserved : Served log count false) :
      Served (log ++ [.entered count]) (count + 1) true
  | land {log : List Attempt} {count number : ℕ}
      (hserved : Served log count true) (hlast : number + 1 = count) :
      Served (log ++ [.landed number]) count false
  | lose {log : List Attempt} {count number : ℕ}
      (hserved : Served log count true) (hlast : number + 1 = count) :
      Served (log ++ [.lost number]) count false

def enteredNumber : Attempt → Option ℕ
  | .entered number => some number
  | .landed _ => none
  | .lost _ => none

def landedNumber : Attempt → Option ℕ
  | .entered _ => none
  | .landed number => some number
  | .lost _ => none

def enteredNumbers (log : List Attempt) : List ℕ :=
  log.filterMap enteredNumber

def landedNumbers (log : List Attempt) : List ℕ :=
  log.filterMap landedNumber

@[simp] theorem enteredNumbers_append_singleton
    (log : List Attempt) (attempt : Attempt) :
    enteredNumbers (log ++ [attempt]) =
      enteredNumbers log ++ (enteredNumber attempt).toList := by
  cases attempt <;> simp [enteredNumbers, enteredNumber]

@[simp] theorem landedNumbers_append_singleton
    (log : List Attempt) (attempt : Attempt) :
    landedNumbers (log ++ [attempt]) =
      landedNumbers log ++ (landedNumber attempt).toList := by
  cases attempt <;> simp [landedNumbers, landedNumber]

theorem mem_landedNumbers_iff {log : List Attempt} {number : ℕ} :
    number ∈ landedNumbers log ↔ .landed number ∈ log := by
  unfold landedNumbers
  rw [List.mem_filterMap]
  constructor
  · intro hmem
    obtain ⟨attempt, hattempt, hnumber⟩ := hmem
    cases attempt with
    | entered other => contradiction
    | landed other =>
        rw [← Option.some.inj hnumber]
        exact hattempt
    | lost other => contradiction
  · intro hmem
    exact ⟨_, hmem, rfl⟩

namespace Served

variable {log : List Attempt} {count number higher : ℕ} {pending : Bool}

theorem enteredNumbers_eq (hserved : Served log count pending) :
    enteredNumbers log = List.range count := by
  induction hserved with
  | empty => rfl
  | enter hserved ih =>
      rw [enteredNumbers_append_singleton, ih, List.range_succ]
      rfl
  | land hserved hlast ih =>
      rw [enteredNumbers_append_singleton, ih]
      exact List.append_nil _
  | lose hserved hlast ih =>
      rw [enteredNumbers_append_singleton, ih]
      exact List.append_nil _

theorem lt_of_settled (hserved : Served log count pending)
    (hsettled : .landed number ∈ log ∨ .lost number ∈ log) :
    number + pending.toNat < count := by
  induction hserved with
  | empty => simp at hsettled
  | enter hserved ih =>
      have hbefore := ih (by simpa using hsettled)
      simp only [Bool.toNat_false, Bool.toNat_true] at hbefore ⊢
      omega
  | @land _ count _ hserved hlast ih =>
      simp only [List.mem_append, List.mem_singleton, Attempt.landed.injEq,
        reduceCtorEq, or_false] at hsettled
      have hbefore : number + 1 = count ∨ number + 1 < count := by
        rcases hsettled with (hold | hnew) | hlost
        · exact Or.inr (ih (Or.inl hold))
        · exact Or.inl (hnew ▸ hlast)
        · exact Or.inr (ih (Or.inr hlost))
      simp only [Bool.toNat_false]
      omega
  | @lose _ count _ hserved hlast ih =>
      simp only [List.mem_append, List.mem_singleton, Attempt.lost.injEq,
        reduceCtorEq, or_false] at hsettled
      have hbefore : number + 1 = count ∨ number + 1 < count := by
        rcases hsettled with hlanded | hold | hnew
        · exact Or.inr (ih (Or.inl hlanded))
        · exact Or.inr (ih (Or.inr hold))
        · exact Or.inl (hnew ▸ hlast)
      simp only [Bool.toNat_false]
      omega

theorem settled_of_lt (hserved : Served log count pending)
    (hlt : number + pending.toNat < count) :
    .landed number ∈ log ∨ .lost number ∈ log := by
  induction hserved with
  | empty => omega
  | enter hserved ih =>
      simp only [Bool.toNat_false, Bool.toNat_true] at ih hlt
      simpa using ih (by omega)
  | @land _ count _ hserved hlast ih =>
      simp only [Bool.toNat_false, Bool.toNat_true, Nat.add_zero] at ih hlt
      by_cases heq : number + 1 = count
      · have hsame := hlast.trans heq.symm
        simp [Nat.succ.inj hsame]
      · have hsettled := ih (by omega)
        simp only [List.mem_append, List.mem_singleton]
        tauto
  | @lose _ count _ hserved hlast ih =>
      simp only [Bool.toNat_false, Bool.toNat_true, Nat.add_zero] at ih hlt
      by_cases heq : number + 1 = count
      · have hsame := hlast.trans heq.symm
        simp [Nat.succ.inj hsame]
      · have hsettled := ih (by omega)
        simp only [List.mem_append, List.mem_singleton]
        tauto

theorem landedNumbers_pairwise (hserved : Served log count pending) :
    (landedNumbers log).Pairwise (· < ·) := by
  induction hserved with
  | empty => exact List.Pairwise.nil
  | enter hserved ih => simpa [landedNumber] using ih
  | land hserved hlast ih =>
      rw [landedNumbers_append_singleton, List.pairwise_append]
      refine ⟨ih, List.pairwise_singleton _ _, ?_⟩
      intro earlier hearlier later hlater
      have hbefore :=
        hserved.lt_of_settled (Or.inl (mem_landedNumbers_iff.mp hearlier))
      rw [Bool.toNat_true] at hbefore
      simp only [landedNumber, Option.toList_some,
        List.mem_singleton] at hlater
      omega
  | lose hserved hlast ih => simpa [landedNumber] using ih

theorem not_lost_of_landed (hserved : Served log count pending)
    (hlanded : .landed number ∈ log) : .lost number ∉ log := by
  induction hserved with
  | empty => simp
  | enter hserved ih => simpa using ih (by simpa using hlanded)
  | land hserved hlast ih =>
      simp only [List.mem_append, List.mem_singleton, reduceCtorEq,
        Attempt.landed.injEq, or_false] at hlanded ⊢
      rcases hlanded with hold | hnew
      · exact ih hold
      · intro hlost
        have hbefore := hserved.lt_of_settled (Or.inr hlost)
        rw [Bool.toNat_true] at hbefore
        omega
  | lose hserved hlast ih =>
      simp only [List.mem_append, List.mem_singleton, reduceCtorEq,
        Attempt.lost.injEq, or_false] at hlanded ⊢
      have hbefore := hserved.lt_of_settled (Or.inl hlanded)
      rw [Bool.toNat_true] at hbefore
      have hold := ih hlanded
      rintro (hlost | hnew)
      · exact hold hlost
      · omega

theorem lost_iff_of_lt (hserved : Served log count pending)
    (hlanded : .landed higher ∈ log) (hlt : number < higher) :
    .lost number ∈ log ↔ .landed number ∉ log := by
  constructor
  · intro hlost hboth
    exact hserved.not_lost_of_landed hboth hlost
  · intro hnot
    have hbefore := hserved.lt_of_settled (Or.inl hlanded)
    have hsettled := hserved.settled_of_lt
      (lt_trans (Nat.add_lt_add_right hlt _) hbefore)
    exact hsettled.resolve_left hnot

end Served

end NumberedAttempts
