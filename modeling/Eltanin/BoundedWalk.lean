import Mathlib.Data.List.Chain

/-!
# A bounded walk that never turns back

A walk asks at every place for the next one, at most `fuel` times.  It ends
early when there is no answer, when the answer is not a place to go on from,
and when it has been at that place before.  The answers may differ from round
to round.
-/

namespace BoundedWalk

variable {α : Type*} [DecidableEq α]

def walk (next : ℕ → α → Option α) (root : α) :
    ℕ → ℕ → List α → α → List α
  | 0, _, _, _ => []
  | fuel + 1, round, seen, current =>
      match next round current with
      | none => []
      | some place =>
          if place = root ∨ place ∈ seen then []
          else place :: walk next root fuel (round + 1) (place :: seen) place

section Bounds

variable (next : ℕ → α → Option α) (root : α)

theorem length_walk_le (fuel round : ℕ) (seen : List α) (current : α) :
    (walk next root fuel round seen current).length ≤ fuel := by
  induction fuel generalizing round seen current with
  | zero => exact Nat.le_refl 0
  | succ fuel ih =>
      rw [walk]
      cases next round current with
      | none => exact Nat.zero_le _
      | some place =>
          by_cases hstop : place = root ∨ place ∈ seen
          · simp [hstop]
          · simp only [hstop, if_false, List.length_cons]
            exact Nat.succ_le_succ (ih (round + 1) (place :: seen) place)

/-- No place of a walk has been seen before it, and none is the root. -/
theorem fresh_of_mem_walk {fuel round : ℕ} {seen : List α} {current place : α}
    (hmem : place ∈ walk next root fuel round seen current) :
    place ≠ root ∧ place ∉ seen := by
  induction fuel generalizing round seen current with
  | zero => exact absurd hmem List.not_mem_nil
  | succ fuel ih =>
      rw [walk] at hmem
      cases hnext : next round current with
      | none => simp [hnext] at hmem
      | some first =>
          by_cases hstop : first = root ∨ first ∈ seen
          · simp [hnext, hstop] at hmem
          · simp only [hnext, hstop, if_false, List.mem_cons] at hmem
            rw [not_or] at hstop
            cases hmem with
            | inl heq => exact heq ▸ hstop
            | inr hlater =>
                have hfresh := ih hlater
                rw [List.mem_cons, not_or] at hfresh
                exact ⟨hfresh.1, hfresh.2.2⟩

theorem nodup_walk (fuel round : ℕ) (seen : List α) (current : α) :
    (walk next root fuel round seen current).Nodup := by
  induction fuel generalizing round seen current with
  | zero => exact List.nodup_nil
  | succ fuel ih =>
      rw [walk]
      cases next round current with
      | none => exact List.nodup_nil
      | some place =>
          by_cases hstop : place = root ∨ place ∈ seen
          · simp [hstop]
          · simp only [hstop, if_false, List.nodup_cons]
            refine ⟨?_, ih (round + 1) (place :: seen) place⟩
            intro hmem
            have hfresh := fresh_of_mem_walk next root hmem
            exact hfresh.2 List.mem_cons_self

end Bounds

section Collected

variable {β : Type*} {next : ℕ → α → Option α} {entry : ℕ → α → β} {root : α}

/-- What a walk collects: one entry for every place it goes on from. -/
def collect (next : ℕ → α → Option α) (entry : ℕ → α → β) (root : α) :
    ℕ → ℕ → List β → List α → α → List β
  | 0, _, out, _, _ => out
  | fuel + 1, round, out, seen, current =>
      match next round current with
      | none => out
      | some place =>
          if place = root ∨ place ∈ seen then out
          else
            collect next entry root fuel (round + 1)
              (out ++ [entry round place]) (place :: seen) place

/-- The entries are those of the places of the walk, in its order. -/
theorem map_collect {name : β → α}
    (hname : ∀ round place, name (entry round place) = place)
    (fuel round : ℕ) (out : List β) (seen : List α) (current : α) :
    (collect next entry root fuel round out seen current).map name =
      out.map name ++ walk next root fuel round seen current := by
  induction fuel generalizing round out seen current with
  | zero => exact (List.append_nil _).symm
  | succ fuel ih =>
      rw [collect, walk]
      cases next round current with
      | none => exact (List.append_nil _).symm
      | some place =>
          by_cases hstop : place = root ∨ place ∈ seen
          · simp only [hstop, if_true, List.append_nil]
          · simp only [hstop, if_false, ih, List.map_append,
              List.append_assoc, List.map_cons, List.map_nil,
              List.singleton_append, hname]

/-- Only the answers and the entries of its own rounds count. -/
theorem collect_congr {other : ℕ → α → Option α} {otherEntry : ℕ → α → β}
    {fuel round : ℕ}
    (hnext : ∀ later, later < round + fuel → next later = other later)
    (hentry : ∀ later, later < round + fuel → entry later = otherEntry later)
    (out : List β) (seen : List α) (current : α) :
    collect next entry root fuel round out seen current =
      collect other otherEntry root fuel round out seen current := by
  induction fuel generalizing round out seen current with
  | zero => rfl
  | succ fuel ih =>
      have hround : round < round + (fuel + 1) :=
        Nat.lt_add_of_pos_right (Nat.succ_pos fuel)
      rw [← Nat.succ_add_eq_add_succ] at hnext hentry hround
      simp only [collect, hnext round hround, hentry round hround,
        ih hnext hentry]

end Collected

/-- Where the answers come from a chain of new places, the walk is that chain
as far as the bound goes. -/
theorem walk_eq_take {next : ℕ → α → Option α} {parent : α → Option α}
    {root : α} {fuel round : ℕ} {seen chain : List α} {current : α}
    (hfixed : ∀ round place, next round place = parent place)
    (hchain : List.IsChain (fun place above => parent place = some above)
      (current :: chain))
    (hnodup : chain.Nodup) (hroot : root ∉ chain)
    (hseen : ∀ place ∈ chain, place ∉ seen)
    (hend : chain.length < fuel →
      parent (chain.getLastD current) = none ∨
        parent (chain.getLastD current) = some root) :
    walk next root fuel round seen current = chain.take fuel := by
  induction fuel generalizing round seen chain current with
  | zero => rfl
  | succ fuel ih =>
      rw [walk, hfixed]
      cases chain with
      | nil =>
          have hlast := hend (Nat.succ_pos fuel)
          rw [List.getLastD_nil] at hlast
          cases hlast with
          | inl hnone => rw [hnone, List.take_nil]
          | inr hzero => simp [hzero]
      | cons place chain =>
          rw [List.isChain_cons_cons] at hchain
          rw [List.nodup_cons] at hnodup
          rw [List.mem_cons, not_or] at hroot
          have hgo : ¬(place = root ∨ place ∈ seen) := by
            rw [not_or]
            exact ⟨Ne.symm hroot.1, hseen place List.mem_cons_self⟩
          have hlater : ∀ above ∈ chain, above ∉ place :: seen := by
            intro above habove
            rw [List.mem_cons, not_or]
            refine ⟨?_, hseen above (List.mem_cons_of_mem place habove)⟩
            intro heq
            exact hnodup.1 (heq ▸ habove)
          have hlast : chain.length < fuel →
              parent (chain.getLastD place) = none ∨
                parent (chain.getLastD place) = some root := by
            intro hlength
            have hend := hend (Nat.succ_lt_succ hlength)
            rwa [List.getLastD_cons] at hend
          have hrest :
              walk next root fuel (round + 1) (place :: seen) place =
                chain.take fuel :=
            ih hchain.2 hnodup.2 hroot.2 hlater hlast
          simp only [hchain.1, hgo, if_false, hrest, List.take_succ_cons]

end BoundedWalk
