import AgentSurface.Session.Filter
import Mathlib.Data.List.Nodup

/-!
# Session — listings do not depend on the order

A listing is sorted by the times of change, and by the identifiers where these times are equal.  The
order is total, and snapshots with different identifiers are never on a par (`comesFirst_antisymm`).

* `Filter.apply_perm`: what a filter makes of snapshots with different identifiers does not depend on
  the order in which they are given.
-/

namespace AgentSurface

namespace Timestamp

variable {a b c : Timestamp}

theorem before_iff :
    a.before b = true ↔ a.seconds < b.seconds ∨ a.seconds = b.seconds ∧ a.nanos < b.nanos := by
  simp [before]

theorem before_trans (hab : a.before b = true) (hbc : b.before c = true) :
    a.before c = true := by
  rw [before_iff] at *
  omega

theorem not_before_of_before (hab : a.before b = true) : ¬ b.before a = true := by
  rw [before_iff] at *
  omega

/-- Two points in time are the same, or one comes before the other. -/
theorem before_trichotomy (a b : Timestamp) :
    a.before b = true ∨ a = b ∨ b.before a = true := by
  obtain ⟨seconds, nanos⟩ := a
  obtain ⟨seconds', nanos'⟩ := b
  simp only [before_iff, Timestamp.mk.injEq]
  omega

end Timestamp

namespace Session

variable {a b c : Snapshot} {l l' : List Snapshot}

/-- Either the first snapshot was changed later, or both were changed at once and its identifier is
not behind the other one. -/
theorem comesFirst_iff : Filter.comesFirst a b = true ↔
    b.updatedAt.before a.updatedAt = true ∨ b.updatedAt = a.updatedAt ∧ a.id ≤ b.id := by
  simp only [Filter.comesFirst, Bool.or_eq_true, Bool.and_eq_true, beq_iff_eq, decide_eq_true_eq]

theorem comesFirst_trans (hab : Filter.comesFirst a b = true) (hbc : Filter.comesFirst b c = true) :
    Filter.comesFirst a c = true := by
  rw [comesFirst_iff] at *
  rcases hab with hab | ⟨hab, hid⟩ <;> rcases hbc with hbc | ⟨hbc, hid'⟩
  · exact .inl (Timestamp.before_trans hbc hab)
  · exact .inl (hbc ▸ hab)
  · exact .inl (hab ▸ hbc)
  · exact .inr ⟨hbc.trans hab, String.le_trans hid hid'⟩

/-- Of two snapshots, one comes first. -/
theorem comesFirst_total (a b : Snapshot) :
    (Filter.comesFirst a b || Filter.comesFirst b a) = true := by
  rw [Bool.or_eq_true, comesFirst_iff, comesFirst_iff]
  rcases Timestamp.before_trichotomy a.updatedAt b.updatedAt with hlt | heq | hlt
  · exact .inr (.inl hlt)
  · exact (String.le_total a.id b.id).imp (fun hid => .inr ⟨heq.symm, hid⟩)
      fun hid => .inr ⟨heq, hid⟩
  · exact .inl (.inl hlt)

/-- Only snapshots with one identifier are on a par. -/
theorem comesFirst_antisymm (hab : Filter.comesFirst a b = true)
    (hba : Filter.comesFirst b a = true) : a.id = b.id := by
  rw [comesFirst_iff] at *
  rcases hab with hab | ⟨hab, hid⟩ <;> rcases hba with hba | ⟨hba, hid'⟩
  · exact absurd hba (Timestamp.not_before_of_before hab)
  · rw [hba] at hab
    exact absurd hab (Timestamp.not_before_of_before hab)
  · rw [hab] at hba
    exact absurd hba (Timestamp.not_before_of_before hba)
  · exact String.le_antisymm hid hid'

/-- Snapshots are sorted in one way. -/
theorem mergeSort_perm_eq (hperm : l.Perm l') (hids : (l.map Snapshot.id).Nodup) :
    l.mergeSort Filter.comesFirst = l'.mergeSort Filter.comesFirst := by
  have hsorted : ∀ l : List Snapshot,
      (l.mergeSort Filter.comesFirst).Pairwise fun a b => Filter.comesFirst a b = true :=
    List.pairwise_mergeSort (fun _ _ _ => comesFirst_trans) comesFirst_total
  have hmem : ∀ x, x ∈ l.mergeSort Filter.comesFirst → x ∈ l := fun x => List.mem_mergeSort.1
  have hmem' : ∀ x, x ∈ l'.mergeSort Filter.comesFirst → x ∈ l :=
    fun x h => hperm.mem_iff.2 (List.mem_mergeSort.1 h)
  refine List.Perm.eq_of_pairwise (fun a b ha hb hab hba => ?_) (hsorted l) (hsorted l')
    (((List.mergeSort_perm l _).trans hperm).trans (List.mergeSort_perm l' _).symm)
  exact List.inj_on_of_nodup_map hids (hmem a ha) (hmem' b hb) (comesFirst_antisymm hab hba)

/-- **A listing does not depend on the order in which the snapshots stand.** -/
theorem Filter.apply_perm (f : Filter) (hperm : l.Perm l') (hids : (l.map Snapshot.id).Nodup) :
    f.apply l = f.apply l' := by
  have hsorted : (l.filter f.accepts).mergeSort Filter.comesFirst =
      (l'.filter f.accepts).mergeSort Filter.comesFirst :=
    mergeSort_perm_eq (hperm.filter _) (hids.sublist (List.filter_sublist.map _))
  rw [Filter.apply, Filter.apply, hsorted]

end Session
end AgentSurface
