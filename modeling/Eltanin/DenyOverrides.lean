import Mathlib.Data.List.Perm.Basic
import Mathlib.Data.List.Forall2

/-!
# Three-valued conjunction and deny-overrides combination

A guard is checked against evidence which may be absent, so its verdict is
one of three values.  The file has two parts.  The first is strong Kleene
conjunction over a list of verdicts, with its two orders: by truth and by
information.  The second combines rules which permit or forbid: a request is
permitted when some permitting rule holds and every forbidding rule is
refuted.  Losing information can only revoke a permission; losing truth can
also grant one, and the last theorem says exactly when it does.
-/

namespace DenyOverrides

inductive Verdict where
  | refuted
  | unknown
  | holds
  deriving DecidableEq, Repr

namespace Verdict

/-- The information order: `unknown` carries less than either answer. -/
def LessInformed (coarse fine : Verdict) : Prop :=
  coarse = .unknown ∨ coarse = fine

/-- The truth order `refuted < unknown < holds`. -/
def LessTrue : Verdict → Verdict → Prop
  | .refuted, _ => True
  | .unknown, upper => upper ≠ .refuted
  | .holds, upper => upper = .holds

theorem LessInformed.refl (verdict : Verdict) :
    LessInformed verdict verdict := .inr rfl

theorem LessTrue.refl (verdict : Verdict) : LessTrue verdict verdict := by
  cases verdict <;> simp [LessTrue]

theorem LessTrue.holds_of_holds
    {lower upper : Verdict} (hle : LessTrue lower upper)
    (hlower : lower = .holds) : upper = .holds := by
  subst hlower
  exact hle

theorem LessTrue.refuted_of_refuted
    {lower upper : Verdict} (hle : LessTrue lower upper)
    (hupper : upper = .refuted) : lower = .refuted := by
  subst hupper
  cases lower with
  | refuted => rfl
  | unknown => exact (hle rfl).elim
  | holds => cases hle

end Verdict

/-- Strong Kleene conjunction of a list of verdicts. -/
def conjunction (verdicts : List Verdict) : Verdict :=
  if .refuted ∈ verdicts then .refuted
  else if .unknown ∈ verdicts then .unknown
  else .holds

theorem conjunction_eq_refuted_iff {verdicts : List Verdict} :
    conjunction verdicts = .refuted ↔ .refuted ∈ verdicts := by
  unfold conjunction
  split
  next hrefuted => simp [hrefuted]
  next hrefuted =>
    split <;> simp [hrefuted]

theorem conjunction_eq_unknown_iff {verdicts : List Verdict} :
    conjunction verdicts = .unknown ↔
      .refuted ∉ verdicts ∧ .unknown ∈ verdicts := by
  unfold conjunction
  split
  next hrefuted => simp [hrefuted]
  next hrefuted =>
    split
    next hunknown => simp [hrefuted, hunknown]
    next hunknown => simp [hrefuted, hunknown]

theorem conjunction_eq_holds_iff {verdicts : List Verdict} :
    conjunction verdicts = .holds ↔
      ∀ verdict ∈ verdicts, verdict = .holds := by
  constructor
  · intro hholds verdict hmem
    cases verdict with
    | holds => rfl
    | refuted =>
        rw [conjunction_eq_refuted_iff.mpr hmem] at hholds
        contradiction
    | unknown =>
        by_cases hrefuted : .refuted ∈ verdicts
        · rw [conjunction_eq_refuted_iff.mpr hrefuted] at hholds
          contradiction
        · rw [conjunction_eq_unknown_iff.mpr ⟨hrefuted, hmem⟩] at hholds
          contradiction
  · intro hall
    have hrefuted : .refuted ∉ verdicts := by
      intro hmem
      exact Verdict.noConfusion (hall _ hmem)
    have hunknown : .unknown ∉ verdicts := by
      intro hmem
      exact Verdict.noConfusion (hall _ hmem)
    simp [conjunction, hrefuted, hunknown]

section Monotonicity

variable {ι : Type*} {coarse fine : ι → Verdict}

theorem conjunction_lessInformed
    (hle : ∀ index, (coarse index).LessInformed (fine index))
    (indices : List ι) :
    (conjunction (indices.map coarse)).LessInformed
      (conjunction (indices.map fine)) := by
  cases hcoarse : conjunction (indices.map coarse) with
  | unknown => exact .inl rfl
  | refuted =>
      right
      obtain ⟨index, hindex, hrefuted⟩ :=
        List.mem_map.mp (conjunction_eq_refuted_iff.mp hcoarse)
      have hfine : fine index = .refuted := by
        rcases hle index with hunknown | heq
        · rw [hrefuted] at hunknown
          contradiction
        · rw [← heq, hrefuted]
      exact (conjunction_eq_refuted_iff.mpr
        (List.mem_map.mpr ⟨index, hindex, hfine⟩)).symm
  | holds =>
      right
      symm
      apply conjunction_eq_holds_iff.mpr
      intro verdict hmem
      obtain ⟨index, hindex, rfl⟩ := List.mem_map.mp hmem
      have hholds := conjunction_eq_holds_iff.mp hcoarse _
        (List.mem_map.mpr ⟨index, hindex, rfl⟩)
      rcases hle index with hunknown | heq
      · rw [hholds] at hunknown
        contradiction
      · rw [← heq, hholds]

theorem conjunction_lessTrue
    (hle : ∀ index, (coarse index).LessTrue (fine index))
    (indices : List ι) :
    (conjunction (indices.map coarse)).LessTrue
      (conjunction (indices.map fine)) := by
  cases hcoarse : conjunction (indices.map coarse) with
  | refuted => trivial
  | unknown =>
      intro hfine
      obtain ⟨index, hindex, hrefuted⟩ :=
        List.mem_map.mp (conjunction_eq_refuted_iff.mp hfine)
      apply (conjunction_eq_unknown_iff.mp hcoarse).1
      exact List.mem_map.mpr
        ⟨index, hindex, (hle index).refuted_of_refuted hrefuted⟩
  | holds =>
      apply conjunction_eq_holds_iff.mpr
      intro verdict hmem
      obtain ⟨index, hindex, rfl⟩ := List.mem_map.mp hmem
      exact (hle index).holds_of_holds
        (conjunction_eq_holds_iff.mp hcoarse _
          (List.mem_map.mpr ⟨index, hindex, rfl⟩))

end Monotonicity

section Combination

variable {ρ : Type*}

/-- Deny-overrides: some permitting rule holds and every forbidding rule is
refuted.  A forbidding rule of unknown verdict already blocks. -/
def Permitted (rules : List ρ) (permits : ρ → Prop)
    (verdict : ρ → Verdict) : Prop :=
  (∃ rule ∈ rules, permits rule ∧ verdict rule = .holds) ∧
    ∀ rule ∈ rules, ¬permits rule → verdict rule = .refuted

variable {rules : List ρ} {permits : ρ → Prop} {coarse fine : ρ → Verdict}

/-- Forgetting evidence never turns a refusal into a permission. -/
theorem Permitted.of_lessInformed
    (hle : ∀ rule ∈ rules, (coarse rule).LessInformed (fine rule))
    (hpermitted : Permitted rules permits coarse) :
    Permitted rules permits fine := by
  rcases hpermitted with ⟨⟨rule, hrule, hpermits, hholds⟩, hforbids⟩
  refine ⟨⟨rule, hrule, hpermits, ?_⟩, ?_⟩
  · rcases hle rule hrule with hunknown | heq
    · rw [hholds] at hunknown
      contradiction
    · rw [← heq, hholds]
  · intro other hother hnot
    have hrefuted := hforbids other hother hnot
    rcases hle other hother with hunknown | heq
    · rw [hrefuted] at hunknown
      contradiction
    · rw [← heq, hrefuted]

/-- Lowering verdicts in the truth order turns a refusal into a permission
exactly when a permitting rule survives the lowering and every forbidding
rule which was not yet refuted becomes refuted by it. -/
theorem permitted_lowered_iff
    (hle : ∀ rule ∈ rules, (coarse rule).LessTrue (fine rule)) :
    Permitted rules permits coarse ↔
      (∃ rule ∈ rules, permits rule ∧ coarse rule = .holds) ∧
        ∀ rule ∈ rules, ¬permits rule → fine rule ≠ .refuted →
          coarse rule = .refuted := by
  constructor
  · rintro ⟨hholds, hforbids⟩
    exact ⟨hholds, fun rule hrule hnot _ => hforbids rule hrule hnot⟩
  · rintro ⟨hholds, hforbids⟩
    refine ⟨hholds, ?_⟩
    intro rule hrule hnot
    by_cases hfine : fine rule = .refuted
    · exact (hle rule hrule).refuted_of_refuted hfine
    · exact hforbids rule hrule hnot hfine

end Combination

end DenyOverrides
