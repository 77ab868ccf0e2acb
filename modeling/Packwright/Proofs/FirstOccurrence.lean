import Mathlib.Data.List.Induction

/-!
# Lists that are collected without repetitions

An element that goes to the end of a list unless it is there already: collected in this way, a list
is left with the first occurrence of each of its elements.
-/

namespace Packwright.FirstOccurrence

variable {α : Type} [BEq α] [LawfulBEq α]

/-- One more element at the end, unless it is there, of a list without its repetitions. -/
theorem concat_eraseDups (xs : List α) (x : α) :
    (if xs.eraseDups.contains x then xs.eraseDups else xs.eraseDups ++ [x]) =
      (xs ++ [x]).eraseDups := by
  rw [List.eraseDups_append]
  by_cases hin : x ∈ xs
  · have hleft : xs.eraseDups.contains x = true := by simpa using hin
    have hright : [x].removeAll xs = [] := by simp [List.removeAll, hin]
    rw [if_pos hleft, hright, List.eraseDups_nil, List.append_nil]
  · have hleft : ¬ xs.eraseDups.contains x = true := by simpa using hin
    have hright : [x].removeAll xs = [x] := by simp [List.removeAll, hin]
    rw [if_neg hleft, hright]
    rfl

/-- Without its repeats a list has none. -/
theorem nodup_eraseDups (xs : List α) : xs.eraseDups.Nodup := by
  induction xs using List.reverseRecOn with
  | nil => exact List.nodup_nil
  | append_singleton before x ih =>
    rw [← concat_eraseDups]
    split
    · exact ih
    · rename_i hx
      refine List.nodup_append.mpr ⟨ih, by simp, fun y hy z hz => ?_⟩
      rintro rfl
      exact hx (List.contains_iff_mem.mpr (List.mem_singleton.mp hz ▸ hy))

/-- And a list without repeats stays. -/
theorem eraseDups_of_nodup {xs : List α} (h : xs.Nodup) : xs.eraseDups = xs := by
  induction xs using List.reverseRecOn with
  | nil => rfl
  | append_singleton before x ih =>
    have hsame := ih (List.nodup_append.mp h).1
    have hnew : x ∉ before := fun hx => (List.nodup_append.mp h).2.2 x hx x (by simp) rfl
    rw [← concat_eraseDups, hsame, if_neg (by simpa using hnew)]

/-- What stands in front may lose its repetitions first. -/
theorem eraseDups_append_left (xs ys : List α) :
    (xs.eraseDups ++ ys).eraseDups = (xs ++ ys).eraseDups := by
  have hsame : ys.removeAll xs.eraseDups = ys.removeAll xs :=
    List.filter_congr fun y _ => by simp
  rw [List.eraseDups_append, List.eraseDups_append, hsame, eraseDups_of_nodup (nodup_eraseDups xs)]

/-- **Collecting without repetitions** leaves the first occurrences. -/
theorem foldl_eq_eraseDups (xs : List α) :
    xs.foldl (fun kept x => if kept.contains x then kept else kept ++ [x]) [] = xs.eraseDups := by
  suffices hfold : ∀ before : List α,
      xs.foldl (fun kept x => if kept.contains x then kept else kept ++ [x]) before.eraseDups =
        (before ++ xs).eraseDups from hfold []
  induction xs with
  | nil => exact fun before => by rw [List.append_nil]; rfl
  | cons x more ih =>
    intro before
    rw [List.foldl_cons, concat_eraseDups, ih, List.append_assoc]
    rfl

end Packwright.FirstOccurrence
