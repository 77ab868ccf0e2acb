import Packwright.Proofs.Dictionary

/-!
# Dictionaries in ascending order

A dictionary without repeated keys can be put into ascending order of its keys. What a look-up finds
is the same as before (`get?_mergeSort`), and there is one such order only: two ascending
dictionaries with the same entries are equal (`Ascending.ext`).
-/

namespace Packwright

namespace Dictionary

variable {α : Type} {d e : Dictionary String α}

/-- Whether every key is greater than those before it. -/
def Ascending (d : Dictionary String α) : Prop :=
  d.Pairwise fun p q => p.1 < q.1

/-- Ascending keys do not repeat, so no entry does. -/
theorem Ascending.nodup (h : Ascending d) : d.Nodup := by
  refine h.imp ?_
  intro p q hlt heq
  exact String.lt_irrefl q.1 (heq ▸ hlt)

/-- Two ascending dictionaries with the same entries are equal. -/
theorem Ascending.ext (hd : Ascending d) (he : Ascending e) (h : ∀ p, p ∈ d ↔ p ∈ e) : d = e := by
  have hperm : d.Perm e := (List.perm_ext_iff_of_nodup hd.nodup he.nodup).mpr h
  refine hperm.eq_of_pairwise (fun p q _ _ hpq hqp => ?_) hd he
  exact absurd (String.lt_trans hpq hqp) (String.lt_irrefl _)

/-! ## Sorting -/

theorem keys_perm (h : d.Perm e) : (keys d).Perm (keys e) :=
  h.map Prod.fst

/-- A look-up does not depend on the order, as long as no key is repeated. -/
theorem get?_eq_of_perm (hd : (keys d).Nodup) (h : d.Perm e) (key : String) :
    get? d key = get? e key := by
  have he : (keys e).Nodup := (keys_perm h).nodup_iff.mp hd
  cases hfound : get? d key with
  | some v =>
    exact (get?_eq_some_of_mem he (h.mem_iff.mp (mem_of_get?_eq_some hfound))).symm
  | none =>
    cases hother : get? e key with
    | none => rfl
    | some v =>
      have hback := get?_eq_some_of_mem hd (h.mem_iff.mpr (mem_of_get?_eq_some hother))
      exact absurd (hfound.symm.trans hback) (by simp)

/-- Sorted by their keys, entries ascend if no key repeats. -/
theorem ascending_mergeSort (hd : (keys d).Nodup) :
    Ascending (d.mergeSort fun p q => p.1 ≤ q.1) := by
  have hle : (d.mergeSort fun p q => p.1 ≤ q.1).Pairwise
      fun p q => decide (p.1 ≤ q.1) = true := by
    apply List.pairwise_mergeSort
    · intro p q r hpq hqr
      exact decide_eq_true (String.le_trans (of_decide_eq_true hpq) (of_decide_eq_true hqr))
    · intro p q
      simpa using String.le_total p.1 q.1
  have hne : (d.mergeSort fun p q => p.1 ≤ q.1).Pairwise fun p q => p.1 ≠ q.1 :=
    List.pairwise_map.mp ((keys_perm (List.mergeSort_perm d _)).nodup_iff.mpr hd)
  -- keys that are not equal do not stand next to each other without a step up
  refine (hle.and hne).imp fun ⟨hle, hne⟩ => ?_
  refine String.not_le.mp fun hge => ?_
  exact hne (String.le_antisymm (of_decide_eq_true hle) hge)

/-- **What a look-up finds is the same after sorting.** -/
theorem get?_mergeSort (hd : (keys d).Nodup) (key : String) :
    get? (d.mergeSort fun p q => p.1 ≤ q.1) key = get? d key :=
  (get?_eq_of_perm hd (List.mergeSort_perm d _).symm key).symm

end Dictionary

end Packwright
