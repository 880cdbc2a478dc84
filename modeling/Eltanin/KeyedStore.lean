import Mathlib.Data.List.AList

/-!
# Keyed stores

A finite map from keys to values, represented by Mathlib's association lists
with unique keys.  Mathlib provides lookup, insertion and erasure; this file
adds the retention of a subset of the entries and the size bounds which an
occupancy argument needs.
-/

namespace KeyedStore

variable {κ ν : Type*}

abbrev Store (κ ν : Type*) := AList fun _ : κ => ν

namespace Store

def size (store : Store κ ν) : ℕ := store.entries.length

def retain (keep : κ → ν → Bool) (store : Store κ ν) : Store κ ν where
  entries := store.entries.filter fun entry => keep entry.1 entry.2
  nodupKeys := store.nodupKeys.sublist List.filter_sublist

def any (found : κ → ν → Bool) (store : Store κ ν) : Bool :=
  store.entries.any fun entry => found entry.1 entry.2

theorem size_retain_le (keep : κ → ν → Bool) (store : Store κ ν) :
    (store.retain keep).size ≤ store.size :=
  List.length_filter_le _ _

variable [DecidableEq κ]

theorem mem_entries_iff {store : Store κ ν} {key : κ} {value : ν} :
    ⟨key, value⟩ ∈ store.entries ↔ store.lookup key = some value :=
  AList.mem_lookup_iff.symm

theorem lookup_retain_eq_some_iff
    {keep : κ → ν → Bool} {store : Store κ ν} {key : κ} {value : ν} :
    (store.retain keep).lookup key = some value ↔
      store.lookup key = some value ∧ keep key value = true := by
  rw [← mem_entries_iff, ← mem_entries_iff]
  simp [retain]

theorem any_eq_true_iff {found : κ → ν → Bool} {store : Store κ ν} :
    store.any found = true ↔
      ∃ key value, store.lookup key = some value ∧
        found key value = true := by
  simp only [any, List.any_eq_true, Sigma.exists, mem_entries_iff]

theorem lookup_retain_eq_none
    {keep : κ → ν → Bool} {store : Store κ ν} {key : κ}
    (hnone : store.lookup key = none) :
    (store.retain keep).lookup key = none := by
  cases hkept : (store.retain keep).lookup key with
  | none => rfl
  | some value =>
      have hstored := (lookup_retain_eq_some_iff.mp hkept).1
      rw [hnone] at hstored
      contradiction

theorem size_erase_le (store : Store κ ν) (key : κ) :
    size (store.erase key) ≤ store.size := by
  have hlength := (List.kerase_sublist key store.entries).length_le
  exact hlength

theorem size_insert_le (store : Store κ ν) (key : κ) (value : ν) :
    size (store.insert key value) ≤ store.size + 1 := by
  have hlength := (List.kerase_sublist key store.entries).length_le
  simpa [size] using hlength

theorem lookup_insert_eq_some_iff
    {store : Store κ ν} {inserted key : κ} {new value : ν} :
    (store.insert inserted new).lookup key = some value ↔
      (key = inserted ∧ new = value) ∨
        (key ≠ inserted ∧ store.lookup key = some value) := by
  by_cases hkey : key = inserted
  · subst hkey
    simp
  · simp [AList.lookup_insert_ne hkey, hkey]

theorem lookup_erase_eq_some_iff
    {store : Store κ ν} {erased key : κ} {value : ν} :
    (store.erase erased).lookup key = some value ↔
      key ≠ erased ∧ store.lookup key = some value := by
  by_cases hkey : key = erased
  · subst hkey
    simp
  · simp [AList.lookup_erase_ne hkey, hkey]

end Store

end KeyedStore
