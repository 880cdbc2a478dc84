import Mathlib.Data.List.Basic

/-!
# Scanning a list for its first fault

A checking loop walks through a list and leaves with an error at the first
item it objects to, where an objection may depend on the items before.  The
file says what such a loop reports without the loop: the list splits at its
first faulty item, everything before is free of faults, and the error is one
of that item's faults.
-/

namespace FaultScan

variable {α ε : Type}

/-- No item is at fault after the items before it. -/
def Faultless (fault : List α → α → ε → Prop) (items : List α) : Prop :=
  ∀ before item after, items = before ++ item :: after →
    ∀ error, ¬fault before item error

/-- The first item at fault has the fault `error`. -/
def FirstFault (fault : List α → α → ε → Prop) (items : List α)
    (error : ε) : Prop :=
  ∃ before item after, items = before ++ item :: after ∧
    Faultless fault before ∧ fault before item error

/-- The faults seen once `past` has already been passed. -/
def faultAfter (fault : List α → α → ε → Prop) (past : List α) :
    List α → α → ε → Prop :=
  fun before => fault (past ++ before)

@[simp] theorem faultAfter_nil (fault : List α → α → ε → Prop) :
    faultAfter fault [] = fault := rfl

theorem faultAfter_faultAfter (fault : List α → α → ε → Prop)
    (past next : List α) :
    faultAfter (faultAfter fault past) next =
      faultAfter fault (past ++ next) := by
  funext before
  simp [faultAfter]

section Lists

variable {fault : List α → α → ε → Prop}

theorem faultless_nil : Faultless fault [] := by
  intro before item after hsplit
  simp at hsplit

theorem faultless_cons_iff {item : α} {rest : List α} :
    Faultless fault (item :: rest) ↔
      (∀ error, ¬fault [] item error) ∧
        Faultless (faultAfter fault [item]) rest := by
  constructor
  · intro hfaultless
    refine ⟨hfaultless [] item rest rfl, ?_⟩
    intro before next after hrest
    apply hfaultless (item :: before) next after
    rw [hrest, List.cons_append]
  · rintro ⟨hhead, hrest⟩ before next after hsplit
    cases before with
    | nil =>
        rw [List.nil_append, List.cons.injEq] at hsplit
        rw [← hsplit.1]
        exact hhead
    | cons first earlier =>
        rw [List.cons_append, List.cons.injEq] at hsplit
        rw [← hsplit.1]
        exact hrest earlier next after hsplit.2

theorem not_firstFault_nil {error : ε} : ¬FirstFault fault [] error := by
  rintro ⟨before, item, after, hsplit, _⟩
  simp at hsplit

theorem firstFault_cons_iff {item : α} {rest : List α} {error : ε} :
    FirstFault fault (item :: rest) error ↔
      fault [] item error ∨
        (∀ other, ¬fault [] item other) ∧
          FirstFault (faultAfter fault [item]) rest error := by
  constructor
  · rintro ⟨before, next, after, hsplit, hbefore, hfault⟩
    cases before with
    | nil =>
        rw [List.nil_append, List.cons.injEq] at hsplit
        rw [hsplit.1]
        exact .inl hfault
    | cons first earlier =>
        rw [List.cons_append, List.cons.injEq] at hsplit
        rw [faultless_cons_iff] at hbefore
        rw [hsplit.1]
        exact .inr ⟨hbefore.1, earlier, next, after, hsplit.2, hbefore.2,
          hfault⟩
  · rintro (hfault | ⟨hhead, before, next, after, hrest, hbefore, hfault⟩)
    · exact ⟨[], item, rest, rfl, faultless_nil, hfault⟩
    · refine ⟨item :: before, next, after, ?_,
        faultless_cons_iff.mpr ⟨hhead, hbefore⟩, hfault⟩
      rw [hrest, List.cons_append]

end Lists

/-! ## The checking loop -/

/-- Check the items one after another, each after the items already
passed. -/
def scan (check : List α → α → Except ε Unit) :
    List α → List α → Except ε Unit
  | _, [] => .ok ()
  | past, item :: rest =>
      match check past item with
      | .error error => .error error
      | .ok () => scan check (past ++ [item]) rest

section Scan

variable {check : List α → α → Except ε Unit}
  {fault : List α → α → ε → Prop}

theorem not_fault_of_check_eq_ok
    (hcheck : ∀ past item error,
      check past item = .error error ↔ fault past item error)
    {past : List α} {item : α} (hok : check past item = .ok ())
    (error : ε) : ¬fault past item error := by
  rw [← hcheck, hok]
  simp

/-- A loop whose check reports the faults of one item reports the first
fault of the list. -/
theorem scan_eq_error_iff
    (hcheck : ∀ past item error,
      check past item = .error error ↔ fault past item error)
    {past items : List α} {error : ε} :
    scan check past items = .error error ↔
      FirstFault (faultAfter fault past) items error := by
  induction items generalizing past with
  | nil => simp [scan, not_firstFault_nil]
  | cons item rest ih =>
      rw [firstFault_cons_iff]
      simp only [scan, faultAfter, List.append_nil]
      cases hitem : check past item with
      | error found =>
          have hfault := (hcheck past item found).mp hitem
          have hnot : ¬∀ other, ¬fault past item other :=
            fun hnone => hnone found hfault
          rw [← hcheck, hitem]
          simp [hnot]
      | ok =>
          have hnone := not_fault_of_check_eq_ok hcheck hitem
          simp only [ih, faultAfter_faultAfter]
          simp [hnone]

end Scan

end FaultScan
