import Mathlib.Data.List.Forall2
import Mathlib.Data.List.Induction
import Mathlib.Data.List.Pairwise

/-!
# Conditions over an event log

A log is the list of events so far, the oldest first.  `Since` is the usual
past-time operator: the condition has been started and not stopped afterwards.
`NeverAfter` says that no event of one kind follows an event of another, and
`DistinctKeys` that no key is used by two events.
-/

namespace EventLog

variable {η : Type*}

def Since (starts stops : η → Prop) (log : List η) : Prop :=
  ∃ before event after, log = before ++ event :: after ∧
    starts event ∧ ∀ later ∈ after, ¬stops later

def NeverAfter (first second : η → Prop) (log : List η) : Prop :=
  log.Pairwise fun earlier later => first earlier → ¬second later

variable {starts stops first second : η → Prop} {log new : List η} {event : η}

theorem not_since_nil : ¬Since starts stops [] := by
  intro hsince
  rcases hsince with ⟨before, event, after, heq, _⟩
  simp at heq

theorem Since.exists_mem (hsince : Since starts stops log) :
    ∃ event ∈ log, starts event := by
  rcases hsince with ⟨before, event, after, heq, hstarts, _⟩
  refine ⟨event, ?_, hstarts⟩
  rw [heq]
  exact List.mem_append_right before List.mem_cons_self

theorem since_of_mem (hevent : event ∈ log) (hstarts : starts event)
    (hstops : ∀ later ∈ log, ¬stops later) : Since starts stops log := by
  obtain ⟨before, after, heq⟩ := List.append_of_mem hevent
  refine ⟨before, event, after, heq, hstarts, ?_⟩
  intro later hlater
  apply hstops
  rw [heq]
  exact List.mem_append_right before (List.mem_cons_of_mem event hlater)

/-- One more event either starts the condition or must not stop it. -/
theorem since_append_singleton_iff :
    Since starts stops (log ++ [event]) ↔
      starts event ∨ Since starts stops log ∧ ¬stops event := by
  constructor
  · intro hsince
    rcases hsince with ⟨before, started, after, heq, hstarts, hafter⟩
    rcases List.eq_nil_or_concat after with hnil | ⟨rest, last, hconcat⟩
    · subst hnil
      have hlast := (List.append_inj' heq rfl).2
      rw [List.cons.injEq] at hlast
      left
      exact hlast.1 ▸ hstarts
    · right
      subst hconcat
      rw [List.concat_eq_append, ← List.cons_append,
        ← List.append_assoc] at heq
      obtain ⟨hlog, hlast⟩ := List.append_inj' heq rfl
      rw [List.cons.injEq] at hlast
      constructor
      · refine ⟨before, started, rest, hlog, hstarts, ?_⟩
        intro later hlater
        exact hafter later (by simp [hlater])
      · rw [hlast.1]
        exact hafter last (by simp)
  · intro hcases
    rcases hcases with hstarts | ⟨hsince, hnot⟩
    · exact ⟨log, event, [], rfl, hstarts, by simp⟩
    · rcases hsince with ⟨before, started, after, heq, hstarts, hafter⟩
      refine ⟨before, started, after ++ [event], ?_, hstarts, ?_⟩
      · rw [heq, List.append_assoc, List.cons_append]
      · intro later hlater
        rcases List.mem_append.mp hlater with hold | hnew
        · exact hafter later hold
        · rw [List.mem_singleton.mp hnew]
          exact hnot

theorem neverAfter_append_iff :
    NeverAfter first second (log ++ new) ↔
      NeverAfter first second log ∧ NeverAfter first second new ∧
        ∀ earlier ∈ log, first earlier → ∀ later ∈ new, ¬second later := by
  simp only [NeverAfter, List.pairwise_append]
  refine and_congr Iff.rfl (and_congr Iff.rfl ?_)
  constructor
  · intro hall earlier hearlier hfirst later hlater
    exact hall earlier hearlier later hlater hfirst
  · intro hall earlier hearlier later hlater hfirst
    exact hall earlier hearlier hfirst later hlater

theorem neverAfter_of_forall_not (hnot : ∀ event ∈ log, ¬second event) :
    NeverAfter first second log :=
  List.Pairwise.imp_of_mem
    (fun _ hlater _ _ => hnot _ hlater)
    (List.pairwise_of_forall fun _ _ => trivial)

/-- The order of a log is the order of its image, event by event. -/
theorem NeverAfter.of_forall₂ {θ : Type*} {relation : η → θ → Prop}
    {earlier later : θ → Prop} {images : List θ}
    (hlog : NeverAfter first second log)
    (hrelated : List.Forall₂ relation log images)
    (hearlier : ∀ {event image}, relation event image → earlier image →
      first event)
    (hlater : ∀ {event image}, relation event image → later image →
      second event) : NeverAfter earlier later images := by
  induction hrelated with
  | nil => exact .nil
  | @cons event image rest restImages hhead htail ih =>
      obtain ⟨hrest, hlog⟩ := List.pairwise_cons.mp hlog
      refine List.pairwise_cons.mpr ⟨?_, ih hlog⟩
      intro other hother himage hsecond
      rcases List.mem_iff_getElem.mp hother with ⟨index, hindex, heq⟩
      have hbound : index < rest.length := htail.length_eq ▸ hindex
      have hpair := htail.get hbound hindex
      rw [List.get_eq_getElem, List.get_eq_getElem, heq] at hpair
      exact hrest _ (List.getElem_mem hbound) (hearlier hhead himage)
        (hlater hpair hsecond)

section DistinctKeys

variable {κ : Type*} {key : η → Option κ}

/-- Events without a key are free. -/
def DistinctKeys (key : η → Option κ) (log : List η) : Prop :=
  log.Pairwise fun earlier later => ∀ k, key earlier = some k →
    key later ≠ some k

theorem DistinctKeys.append_of_none (hdistinct : DistinctKeys key log)
    (hnone : key event = none) : DistinctKeys key (log ++ [event]) := by
  unfold DistinctKeys
  rw [List.pairwise_append]
  refine ⟨hdistinct, List.pairwise_singleton _ _, ?_⟩
  intro earlier _ later hlater k _
  rw [List.mem_singleton.mp hlater, hnone]
  exact (Option.some_ne_none k).symm

theorem DistinctKeys.append_of_fresh {k : κ}
    (hdistinct : DistinctKeys key log) (hkey : key event = some k)
    (hfresh : ∀ earlier ∈ log, key earlier ≠ some k) :
    DistinctKeys key (log ++ [event]) := by
  unfold DistinctKeys
  rw [List.pairwise_append]
  refine ⟨hdistinct, List.pairwise_singleton _ _, ?_⟩
  intro earlier hearlier later hlater other hother hsame
  rw [List.mem_singleton.mp hlater, hkey] at hsame
  exact hfresh earlier hearlier (hother.trans hsame.symm)

theorem DistinctKeys.eq_of_key_eq {other : η} {k : κ}
    (hdistinct : DistinctKeys key log) (hevent : event ∈ log)
    (hother : other ∈ log) (hkey : key event = some k)
    (hsame : key other = some k) : event = other := by
  have hsymmetric : Std.Symm fun earlier later : η =>
      ∀ k, key earlier = some k → key later ≠ some k :=
    ⟨fun _ _ hne k hearlier hlater => hne k hlater hearlier⟩
  by_contra hne
  exact hdistinct.forall hevent hother hne k hkey hsame

end DistinctKeys

end EventLog
