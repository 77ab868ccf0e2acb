import Packwright.Proofs.FirstOccurrence
import Packwright.Store.Basic

/-!
# What a write makes of a store

A write that counts as a change stores its content and puts its path on the list of what is pending;
any other write leaves both as they are. Whether it counts depends on nothing but the files.
-/

namespace Packwright.Store

/-- One more element at the end, unless it is there, of a list without its repetitions. -/
theorem addOnce_eraseDups (paths : List String) (key : String) :
    addOnce paths.eraseDups key = (paths ++ [key]).eraseDups :=
  FirstOccurrence.concat_eraseDups paths key

/-- A change stores the text and notes the path. -/
theorem write_of_isChange {s : Store} {path content : String} (h : s.isChange path content = true) :
    s.write path content = { s with
      files := s.files.put (Path.normalize path) content
      pending := addOnce s.pending (Path.normalize path) } := by
  unfold isChange at h
  simp only [Bool.and_eq_true, Option.isNone_iff_eq_none, bne_iff_ne, ne_eq] at h
  unfold write
  simp only [h.1, if_neg h.2]

/-- A write that is no change leaves the texts and the pending paths alone. -/
theorem write_of_not_isChange {s : Store} {path content : String}
    (h : s.isChange path content = false) :
    (s.write path content).files = s.files ∧ (s.write path content).pending = s.pending := by
  unfold write
  simp only
  cases hmap : mapOwner? (Path.normalize path) with
  | some owner => exact ⟨rfl, rfl⟩
  | none =>
    have hsame : s.files.get? (Path.normalize path) = some content := by
      simpa [isChange, hmap] using h
    rw [hsame]
    simp

/-- A write changes the stored text of a path exactly if it counts as a change and the path is the
one written to. -/
theorem get?_write_ne_iff (s : Store) (path content p : String) :
    (s.write path content).files.get? p ≠ s.files.get? p ↔
      s.isChange path content = true ∧ p = Path.normalize path := by
  cases hc : s.isChange path content with
  | false => simp [(write_of_not_isChange hc).1]
  | true =>
    rw [write_of_isChange hc]
    -- a change is a text other than the stored one
    have hne : some content ≠ s.files.get? (Path.normalize path) := by
      simp only [isChange, Bool.and_eq_true, bne_iff_ne, ne_eq] at hc
      exact Ne.symm hc.2
    by_cases hp : p = Path.normalize path
    · subst hp
      simpa using hne
    · simp [hp, Dictionary.get?_put_of_ne _ _ hp]

/-- Noting a path once adds that path and no other. -/
theorem mem_addOnce {paths : List String} {key p : String} :
    p ∈ addOnce paths key ↔ p ∈ paths ∨ p = key := by
  unfold addOnce
  split
  · rename_i hc
    have hmem := List.contains_iff_mem.mp hc
    constructor
    · exact Or.inl
    · rintro (hp | rfl)
      · exact hp
      · exact hmem
  · simp

/-- A write makes its own path pending, and that only if it changes something. -/
theorem mem_pending_write_iff (s : Store) (path content p : String) :
    p ∈ (s.write path content).pending ↔
      p ∈ s.pending ∨ s.isChange path content = true ∧ p = Path.normalize path := by
  cases hc : s.isChange path content with
  | false => simp [(write_of_not_isChange hc).2]
  | true =>
    rw [write_of_isChange hc]
    simp [mem_addOnce]

/-- Whether a write is a change depends on the stored texts alone. -/
theorem isChange_congr {s s' : Store} (h : s.files = s'.files) (path content : String) :
    s.isChange path content = s'.isChange path content := by
  rw [isChange, isChange, h]

/-- And so do the texts after it. -/
theorem files_write_congr {s s' : Store} (h : s.files = s'.files) (path content : String) :
    (s.write path content).files = (s'.write path content).files := by
  have hsame := isChange_congr h path content
  cases hc : s.isChange path content with
  | true => rw [write_of_isChange hc, write_of_isChange (hsame ▸ hc), h]
  | false =>
    rw [(write_of_not_isChange hc).1, (write_of_not_isChange (hsame ▸ hc)).1, h]

end Packwright.Store
