import Eltanin.AuditModel

/-!
# Gaps of a log

A gap is an id which is not on disk, below one of the same instance which is.
Each is reported once.  With distinct ids, selecting one finds its record, or
says that it may have been lost, or that it was not found.
-/

namespace Eltanin.Audit

open Eltanin.Core

variable {records : List AuditRecord} {unreadable : List UnreadableLine}

theorem mem_sequencesOf_iff {instanceId : IssuerInstanceId}
    {present : List AuditEventId} {sequence : ℕ} :
    sequence ∈ sequencesOf instanceId present ↔
      ∃ id ∈ present, id.instanceId = instanceId ∧
        id.sequence.toNat = sequence := by
  simp [sequencesOf, and_assoc]

theorem le_foldl_max {sequences : List ℕ} {start sequence : ℕ} :
    sequence ≤ sequences.foldl max start ↔
      sequence ≤ start ∨ ∃ other ∈ sequences, sequence ≤ other := by
  induction sequences generalizing start with
  | nil => simp
  | cons first rest ih =>
      rw [List.foldl_cons, ih, le_max_iff]
      simp [or_assoc]

/-- The numbers up to the highest one which are missing lie below a present
one, and so they fit into an id. -/
theorem missing_iff {instanceId : IssuerInstanceId}
    {present : List AuditEventId} {sequence : ℕ}
    (hinstance : ∃ id ∈ present, id.instanceId = instanceId) :
    (sequence < (sequencesOf instanceId present).foldl max 0 + 1 ∧
        sequence ∉ sequencesOf instanceId present) ↔
      sequence ∉ sequencesOf instanceId present ∧
        ∃ other ∈ present, other.instanceId = instanceId ∧
          sequence < other.sequence.toNat := by
  rw [Nat.lt_succ_iff, le_foldl_max, and_comm]
  apply and_congr_right
  intro hnot
  constructor
  · intro hle
    have hbound : ∃ other ∈ sequencesOf instanceId present,
        sequence ≤ other := by
      rcases hle with hzero | hother
      · obtain ⟨id, hid, heq⟩ := hinstance
        exact ⟨id.sequence.toNat, mem_sequencesOf_iff.mpr ⟨id, hid, heq, rfl⟩,
          by omega⟩
      · exact hother
    obtain ⟨highest, hmem, hle⟩ := hbound
    have hne : sequence ≠ highest := fun heq => hnot (heq ▸ hmem)
    obtain ⟨other, hother, heq, hhighest⟩ := mem_sequencesOf_iff.mp hmem
    exact ⟨other, hother, heq, by omega⟩
  · intro hother
    obtain ⟨other, hmem, heq, hlt⟩ := hother
    exact Or.inr ⟨other.sequence.toNat,
      mem_sequencesOf_iff.mpr ⟨other, hmem, heq, rfl⟩, hlt.le⟩

theorem mem_detectGaps_iff {id : AuditEventId} :
    id ∈ detectGaps records unreadable ↔
      id ∉ presentIds records unreadable ∧
        ∃ other ∈ presentIds records unreadable,
          other.instanceId = id.instanceId ∧
            id.sequence < other.sequence := by
  have habsent : id.sequence.toNat ∉
        sequencesOf id.instanceId (presentIds records unreadable) ↔
      id ∉ presentIds records unreadable := by
    rw [not_iff_not, mem_sequencesOf_iff]
    constructor
    · intro hmem
      obtain ⟨other, hother, hinstance, hsequence⟩ := hmem
      have heq : other = id := by
        rw [AuditEventId.mk.injEq]
        exact ⟨hinstance, UInt64.toNat_inj.mp hsequence⟩
      exact heq ▸ hother
    · intro hmem
      exact ⟨id, hmem, rfl, rfl⟩
  simp only [detectGaps, List.mem_flatMap, List.mem_insertionSort,
    List.mem_dedup, List.mem_map, List.mem_filter, List.mem_range,
    decide_eq_true_eq]
  constructor
  · rintro ⟨instanceId, hinstance, sequence, hmissing, rfl⟩
    obtain ⟨hnot, other, hother, heq, hlt⟩ :=
      (missing_iff hinstance).mp hmissing
    have hsequence : (UInt64.ofNat sequence).toNat = sequence :=
      UInt64.toNat_ofNat_of_lt' (lt_trans hlt other.sequence.toNat_lt)
    simp only [hsequence] at habsent
    refine ⟨habsent.mp hnot, other, hother, heq, ?_⟩
    rw [UInt64.lt_iff_toNat_lt, hsequence]
    exact hlt
  · rintro ⟨hnot, other, hother, heq, hlt⟩
    refine ⟨id.instanceId, ⟨other, hother, heq⟩, id.sequence.toNat, ?_,
      by rw [UInt64.ofNat_toNat]⟩
    rw [missing_iff ⟨other, hother, heq⟩]
    exact ⟨habsent.mpr hnot, other, hother, heq,
      UInt64.lt_iff_toNat_lt.mp hlt⟩

theorem nodup_detectGaps : (detectGaps records unreadable).Nodup := by
  rw [detectGaps, List.nodup_flatMap]
  constructor
  · intro instanceId hinstance
    rw [List.mem_insertionSort, List.mem_dedup, List.mem_map] at hinstance
    apply List.Nodup.map_on
    · intro first hfirst second hsecond heq
      simp only [List.mem_filter, List.mem_range, decide_eq_true_eq]
        at hfirst hsecond
      obtain ⟨-, other, -, -, hlt⟩ := (missing_iff hinstance).mp hfirst
      obtain ⟨-, another, -, -, hlt'⟩ := (missing_iff hinstance).mp hsecond
      rw [AuditEventId.mk.injEq, ← UInt64.toNat_inj,
        UInt64.toNat_ofNat_of_lt' (lt_trans hlt other.sequence.toNat_lt),
        UInt64.toNat_ofNat_of_lt' (lt_trans hlt' another.sequence.toNat_lt)]
        at heq
      exact heq.2
    · exact List.nodup_range.filter _
  · have hdistinct : (((presentIds records unreadable).map
        AuditEventId.instanceId).dedup.insertionSort
          fun first second => first.tag ≤ second.tag).Nodup :=
      (List.perm_insertionSort _ _).nodup_iff.mpr (List.nodup_dedup _)
    apply hdistinct.imp
    intro first second hne id hfirst hsecond
    rw [List.mem_map] at hfirst hsecond
    obtain ⟨_, -, heq⟩ := hfirst
    obtain ⟨_, -, heq'⟩ := hsecond
    rw [← heq'] at heq
    exact hne (AuditEventId.mk.inj heq).1

end Eltanin.Audit
