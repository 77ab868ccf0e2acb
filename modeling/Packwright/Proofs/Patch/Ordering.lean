import Packwright.Proofs.Patch

/-!
# The order of patches

Patches are sorted by their starts, and of those that stand next to each other and repeat each other
the first one stays.

* `StablySorted` says what sorting by starts does, `Thins` which patches may be missing afterwards:
  each is compared with the last patch that was kept, not with the one in front of it.
* `sortPatches_eq_self`: patches in order that do not repeat each other are sorted already, so sorting
  is idempotent.
* `sortPatches_of_alike`: where patches that start together are the same patch, sorting loses none of
  them, and no two of the sorted ones start together.
* `sortPatches_congr`: there the order in which they are given does not matter either.
-/

namespace Packwright.Patch

/-! ## Sorting by starts -/

/-- Whether a list is another one sorted by starts, in which patches that start together are in the
order that they had. -/
structure StablySorted (ps sorted : List Patch) : Prop where
  perm : sorted.Perm ps
  ascending : sorted.Pairwise fun p q => p.start ≤ q.start
  stable : ∀ start : Int,
    (sorted.filter fun p => p.start = start) = ps.filter fun p => p.start = start

/-- Sorting by the start is stable. -/
theorem stablySorted_mergeSort (ps : List Patch) :
    StablySorted ps (ps.mergeSort fun p q => p.start ≤ q.start) := by
  have hperm := List.mergeSort_perm ps fun p q => decide (p.start ≤ q.start)
  refine ⟨hperm, pairwise_mergeSort ps, fun start => ?_⟩
  -- patches that start together are sorted as they stand, so they are left in their order
  have htogether : (ps.filter fun p => p.start = start).Pairwise fun p q =>
      decide (p.start ≤ q.start) = true := by
    refine List.pairwise_of_forall_mem_list fun p hp q hq => ?_
    have hpstart := of_decide_eq_true (List.mem_filter.mp hp).2
    have hqstart := of_decide_eq_true (List.mem_filter.mp hq).2
    rw [decide_eq_true_eq]
    omega
  have hsublist := List.sublist_mergeSort (by simpa using fun p q r : Patch => Int.le_trans)
    (by simpa using fun p q : Patch => Int.le_total _ _) htogether List.filter_sublist
  have hfiltered := hsublist.filter fun p => decide (p.start = start)
  rw [List.filter_filter] at hfiltered
  simp only [Bool.and_self] at hfiltered
  exact (hfiltered.eq_of_length (hperm.filter _).length_eq.symm).symm

/-! ## Dropping repetitions -/

/-- Whether some patches are left of others when repetitions go, `last?` being the patch that was kept
in front of them: what is missing has the start and the text of the last patch that was kept. -/
inductive Thins : Option Patch → List Patch → List Patch → Prop
  | nil (last? : Option Patch) : Thins last? [] []
  | keep {last? : Option Patch} {p : Patch} {rest kept : List Patch}
      (hrest : Thins (some p) rest kept) : Thins last? (p :: rest) (p :: kept)
  | drop {last p : Patch} {rest kept : List Patch} (hstart : p.start = last.start)
      (htext : p.text = last.text) (hrest : Thins (some last) rest kept) :
      Thins (some last) (p :: rest) kept

/-- Whether two patches differ in their start or in their text. -/
def Differ (p q : Patch) : Prop :=
  ¬(p.start = q.start ∧ p.text = q.text)

/-- Two patches repeat each other if they start in one place with one text. -/
theorem sameInsertion_iff {p q : Patch} :
    sameInsertion p q = true ↔ p.start = q.start ∧ p.text = q.text := by
  rw [sameInsertion, Bool.and_eq_true, beq_iff_eq, beq_iff_eq]

/-- The first patch stays, and repeats of it are dropped behind it. -/
theorem exists_dropRepeats_cons (p : Patch) (rest : List Patch) :
    ∃ kept, dropRepeats (p :: rest) = p :: kept ∧ Thins (some p) rest kept := by
  induction rest generalizing p with
  | nil => exact ⟨[], by rw [dropRepeats], .nil _⟩
  | cons q more ih =>
    rw [dropRepeats]
    by_cases hsame : sameInsertion p q = true
    · obtain ⟨kept, hkept, hthins⟩ := ih p
      obtain ⟨hstart, htext⟩ := sameInsertion_iff.mp hsame
      exact ⟨kept, by rw [if_pos hsame, hkept], .drop hstart.symm htext.symm hthins⟩
    · obtain ⟨kept, hkept, hthins⟩ := ih q
      exact ⟨q :: kept, by rw [if_neg hsame, hkept], .keep hthins⟩

/-- What is dropped is a repeat of the patch kept before it. -/
theorem thins_dropRepeats (ps : List Patch) : Thins none ps (dropRepeats ps) := by
  cases ps with
  | nil =>
    rw [dropRepeats]
    exact .nil none
  | cons p rest =>
    obtain ⟨kept, hkept, hthins⟩ := exists_dropRepeats_cons p rest
    rw [hkept]
    exact .keep hthins

/-- So no two neighbours repeat each other. -/
theorem isChain_dropRepeats (ps : List Patch) : (dropRepeats ps).IsChain Differ := by
  induction ps using dropRepeats.induct with
  | case1 =>
    rw [dropRepeats]
    exact .nil
  | case2 p =>
    rw [dropRepeats]
    exact .singleton p
  | case3 p q rest hsame ih =>
    rw [dropRepeats, if_pos hsame]
    exact ih
  | case4 p q rest hdiffer ih =>
    -- what follows the first patch starts with the second one, which differs
    obtain ⟨kept, hkept, -⟩ := exists_dropRepeats_cons q rest
    rw [dropRepeats, if_neg hdiffer, hkept]
    rw [hkept] at ih
    exact .cons_cons (fun hsame => hdiffer (sameInsertion_iff.mpr hsame)) ih

/-- And where none do, nothing is dropped. -/
theorem dropRepeats_of_isChain {ps : List Patch} (h : ps.IsChain Differ) : dropRepeats ps = ps := by
  induction ps using dropRepeats.induct with
  | case1 => rw [dropRepeats]
  | case2 p => rw [dropRepeats]
  | case3 p q rest hsame ih =>
    exact absurd (sameInsertion_iff.mp hsame) (List.isChain_cons_cons.mp h).1
  | case4 p q rest hdiffer ih => rw [dropRepeats, if_neg hdiffer, ih (List.isChain_cons_cons.mp h).2]

/-! ## Sorted patches -/

/-- **Sorting patches sorts them by their starts and drops repetitions.** -/
theorem exists_sorted (ps : List Patch) : ∃ sorted, StablySorted ps sorted ∧
    (sortPatches ps).Sublist sorted ∧ Thins none sorted (sortPatches ps) :=
  ⟨_, stablySorted_mergeSort ps, dropRepeats_sublist _, thins_dropRepeats _⟩

/-- Sorted patches do not repeat their neighbours. -/
theorem isChain_sortPatches (ps : List Patch) : (sortPatches ps).IsChain Differ :=
  isChain_dropRepeats _

/-- Patches that are in order and do not repeat each other are sorted already. -/
theorem sortPatches_eq_self {ps : List Patch} (hascending : ps.Pairwise fun p q => p.start ≤ q.start)
    (hchain : ps.IsChain Differ) : sortPatches ps = ps := by
  have hdecided : ps.Pairwise fun p q => decide (p.start ≤ q.start) = true := by
    simpa using hascending
  show dropRepeats (ps.mergeSort fun p q => p.start ≤ q.start) = ps
  rw [List.mergeSort_of_pairwise hdecided]
  exact dropRepeats_of_isChain hchain

theorem sortPatches_idem (ps : List Patch) : sortPatches (sortPatches ps) = sortPatches ps :=
  sortPatches_eq_self (pairwise_sortPatches ps) (isChain_sortPatches ps)

/-- **The order of patches does not matter** where those that start together are the same. -/
theorem sortPatches_congr {ps qs : List Patch} (hperm : ps.Perm qs)
    (hsame : ∀ p ∈ ps, ∀ q ∈ ps, p.start = q.start → p = q) : sortPatches ps = sortPatches qs := by
  have hmerged : (ps.mergeSort fun p q => p.start ≤ q.start) =
      qs.mergeSort fun p q => p.start ≤ q.start := by
    have hleft := stablySorted_mergeSort ps
    have hright := stablySorted_mergeSort qs
    refine ((hleft.perm.trans hperm).trans hright.perm.symm).eq_of_pairwise ?_ hleft.ascending
      hright.ascending
    intro p q hp hq hle hge
    exact hsame p (hleft.perm.mem_iff.mp hp) q ((hright.perm.trans hperm.symm).mem_iff.mp hq)
      (Int.le_antisymm hle hge)
  rw [sortPatches, sortPatches, hmerged]

/-- **Where patches that start together are the same, sorting loses none of them** and no two of the
sorted ones start together. -/
theorem sortPatches_of_alike {ps : List Patch}
    (hsame : ∀ p ∈ ps, ∀ q ∈ ps, p.start = q.start → p = q) :
    ((sortPatches ps).Pairwise fun p q => p.start < q.start) ∧
      ∀ p, p ∈ sortPatches ps ↔ p ∈ ps := by
  constructor
  · -- neighbours that started together would be the same, and repeats have been dropped
    have hchain : (sortPatches ps).IsChain fun p q => p.start < q.start := by
      refine List.isChain_iff_getElem.mpr fun i hi => ?_
      have hle := List.pairwise_iff_getElem.mp (pairwise_sortPatches ps) i (i + 1) (by omega) hi
        (Nat.lt_succ_self i)
      refine Int.lt_iff_le_and_ne.mpr ⟨hle, fun heq => ?_⟩
      refine List.isChain_iff_getElem.mp (isChain_sortPatches ps) i hi ⟨heq, ?_⟩
      rw [hsame _ (mem_of_mem_sortPatches (List.getElem_mem _)) _
        (mem_of_mem_sortPatches (List.getElem_mem _)) heq]
    have : Trans (fun p q : Patch => p.start < q.start) (fun p q : Patch => p.start < q.start)
        (fun p q : Patch => p.start < q.start) := ⟨Int.lt_trans⟩
    exact List.isChain_iff_pairwise.mp hchain
  · refine fun p => ⟨mem_of_mem_sortPatches, fun hp => ?_⟩
    obtain ⟨q, hq, hstart, -⟩ := exists_dropRepeats_of_mem (List.mem_mergeSort.mpr hp)
    rwa [← hsame q (mem_of_mem_sortPatches hq) p hp hstart]

/-- Patches that start at different places are sorted by these. -/
theorem sortPatches_eq_of_perm {ps qs : List Patch} (hperm : ps.Perm qs)
    (hsorted : qs.Pairwise fun p q => p.start < q.start) : sortPatches ps = qs := by
  have hsymm : Std.Symm fun p q : Patch => p.start = q.start → p = q :=
    ⟨fun p q h heq => (h heq.symm).symm⟩
  have hdistinct := List.Pairwise.forall_of_forall (fun p _ _ => rfl)
    (hsorted.imp (S := fun p q : Patch => p.start = q.start → p = q)
      fun hlt heq => absurd heq (Int.ne_of_lt hlt))
  have hdiffer : qs.Pairwise Differ := by
    refine hsorted.imp fun {p q} hlt => ?_
    exact fun hsame : p.start = q.start ∧ p.text = q.text => Int.ne_of_lt hlt hsame.1
  calc sortPatches ps
      = sortPatches qs := (sortPatches_congr hperm.symm fun p hp q hq => hdistinct hp hq).symm
    _ = qs := sortPatches_eq_self (hsorted.imp fun hlt => Int.le_of_lt hlt) hdiffer.isChain

end Packwright.Patch
