import Mathlib.Data.List.Basic
import Mathlib.Data.List.Induction
import Mathlib.Data.List.Perm.Basic

/-!
# Lists as tables

A list which is read and replaced at its indices is a table.  Two tables are
compared entry by entry, and a column which only some entries have is what
`filterMap` collects.
-/

namespace IndexedList

variable {α β : Type*}

theorem countP_le_countP {p : α → Bool} {q : β → Bool} {left : List α}
    {right : List β}
    (hentries : ∀ (i : ℕ) entry, left[i]? = some entry → p entry = true →
      ∃ other, right[i]? = some other ∧ q other = true) :
    left.countP p ≤ right.countP q := by
  induction left generalizing right with
  | nil => exact Nat.zero_le _
  | cons entry rest ih =>
      have hrest : ∀ (i : ℕ) later, rest[i]? = some later → p later = true →
          ∃ other, right.tail[i]? = some other ∧ q other = true := by
        intro i later hlater hholds
        obtain ⟨other, hother, hq⟩ := hentries (i + 1) later hlater hholds
        exact ⟨other, by rw [List.getElem?_tail, hother], hq⟩
      have htail := ih hrest
      cases right with
      | nil =>
          rw [List.countP_cons]
          by_cases hp : p entry = true
          · obtain ⟨other, hother, -⟩ := hentries 0 entry rfl hp
            contradiction
          · rw [if_neg hp]
            exact htail
      | cons first others =>
          rw [List.tail_cons] at htail
          rw [List.countP_cons, List.countP_cons]
          by_cases hp : p entry = true
          · obtain ⟨other, hother, hq⟩ := hentries 0 entry rfl hp
            rw [List.getElem?_cons_zero, Option.some.injEq] at hother
            rw [if_pos hp, hother, if_pos hq]
            exact Nat.succ_le_succ htail
          · rw [if_neg hp]
            exact Nat.le_add_right_of_le htail

theorem countP_eq_countP_range (p : α → Bool) (entries : List α) :
    entries.countP p =
      (List.range entries.length).countP fun i => entries[i]?.any p := by
  induction entries using List.reverseRecOn with
  | nil => rfl
  | append_singleton entries last ih =>
      rw [List.length_append, List.length_singleton, List.range_succ,
        List.countP_append, List.countP_append, ih]
      congr 1
      · apply List.countP_congr
        intro i hi
        rw [List.getElem?_append_left (List.mem_range.mp hi)]
      · simp [List.countP_cons]

theorem filterMap_set {column : α → Option β} {entries : List α} {i : ℕ}
    {old new : α} (hold : entries[i]? = some old)
    (hcolumn : column new = column old) :
    (entries.set i new).filterMap column = entries.filterMap column := by
  induction entries generalizing i with
  | nil => rfl
  | cons entry rest ih =>
      cases i with
      | zero =>
          rw [List.getElem?_cons_zero, Option.some.injEq] at hold
          rw [List.set_cons_zero, List.filterMap_cons, List.filterMap_cons,
            hcolumn, hold]
      | succ i =>
          rw [List.set_cons_succ, List.filterMap_cons, List.filterMap_cons,
            ih hold]

/-- An entry gets a value in the column. -/
theorem filterMap_set_perm {column : α → Option β} {entries : List α} {i : ℕ}
    {old new : α} {value : β} (hold : entries[i]? = some old)
    (hnone : column old = none) (hsome : column new = some value) :
    ((entries.set i new).filterMap column).Perm
      (value :: entries.filterMap column) := by
  induction entries generalizing i with
  | nil => contradiction
  | cons entry rest ih =>
      cases i with
      | zero =>
          rw [List.getElem?_cons_zero, Option.some.injEq] at hold
          rw [List.set_cons_zero, List.filterMap_cons_some hsome,
            List.filterMap_cons_none (hold ▸ hnone)]
      | succ i =>
          rw [List.set_cons_succ]
          have hrest := ih hold
          cases hentry : column entry with
          | none =>
              rw [List.filterMap_cons_none hentry,
                List.filterMap_cons_none hentry]
              exact hrest
          | some first =>
              rw [List.filterMap_cons_some hentry,
                List.filterMap_cons_some hentry]
              exact (hrest.cons first).trans (List.Perm.swap _ _ _)

/-- Two entries with the same value in a column without repetitions are one
entry. -/
theorem eq_of_filterMap_nodup {column : α → Option β} {entries : List α}
    {i j : ℕ} {first second : α} {value : β}
    (hnodup : (entries.filterMap column).Nodup)
    (hfirst : entries[i]? = some first)
    (hsecond : entries[j]? = some second)
    (hvalue : column first = some value)
    (hvalue' : column second = some value) : i = j := by
  induction entries generalizing i j with
  | nil => contradiction
  | cons entry rest ih =>
      have hmem : ∀ {k : ℕ} {found : α}, rest[k]? = some found →
          column found = some value → value ∈ rest.filterMap column :=
        fun hfound hcolumn => List.mem_filterMap.mpr
          ⟨_, List.mem_of_getElem? hfound, hcolumn⟩
      have hrest : (rest.filterMap column).Nodup :=
        hnodup.sublist ((List.sublist_cons_self entry rest).filterMap column)
      cases i with
      | zero =>
          cases j with
          | zero => rfl
          | succ j =>
              rw [List.getElem?_cons_zero, Option.some.injEq] at hfirst
              subst hfirst
              rw [List.filterMap_cons_some hvalue] at hnodup
              exact absurd (hmem hsecond hvalue')
                (List.nodup_cons.mp hnodup).1
      | succ i =>
          cases j with
          | zero =>
              rw [List.getElem?_cons_zero, Option.some.injEq] at hsecond
              subst hsecond
              rw [List.filterMap_cons_some hvalue'] at hnodup
              exact absurd (hmem hfirst hvalue)
                (List.nodup_cons.mp hnodup).1
          | succ j => rw [ih hrest hfirst hsecond]

end IndexedList
