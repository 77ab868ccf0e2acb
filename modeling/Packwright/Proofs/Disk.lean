import Packwright.Disk
import Packwright.Proofs.Traversal

/-!
# Writing to a disk

A write puts one file where its path leads, and makes the directories above it as far as they are
missing. Whatever else is on the disk stays as it is.

* `writeText` is one such write, `writeTexts` are several of them in turn, and `touched` are the
  locations that their paths lead to.
* `sameFiles_makeDirectories`: making directories touches no file.
* `files_writeTexts`: a file stays as it is unless one of the paths leads to it.
-/

namespace Packwright.Disk

variable {d d' : Disk} {p : FilePath} {location other : Location}

/-! ## Putting something at a location -/

/-- Elsewhere a disk is as before. -/
theorem entry_put_of_ne (hne : other ≠ location) (d : Disk) (e : Entry) :
    entry? (d.put location e) other = entry? d other := by
  unfold entry? put
  split
  · rfl
  · exact Dictionary.get?_put_of_ne d.entries e hne

/-- And at the place itself it has the new entry; the root has none of its own. -/
theorem entry_put_self (hne : location ≠ []) (d : Disk) (e : Entry) :
    entry? (d.put location e) location = some e := by
  unfold entry? put
  rw [if_neg (by simpa using hne)]
  exact Dictionary.get?_put_self d.entries location e

/-- **A free name is free**: there is nothing. -/
theorem entry_eq_none_of_walkFrom {follow : Bool} {fuel links : Nat} {start : Location}
    {parts : List String} (h : d.walkFrom follow fuel links start parts = .ok (.free location)) :
    entry? d location = none := by
  induction fuel generalizing links start parts with
  | zero => exact absurd h (by simp [walkFrom])
  | succ fuel ih =>
    unfold walkFrom at h
    split at h
    · exact absurd h (by simp)
    · exact absurd h (by simp)
    · -- one component is followed: up, to a name that is free, through a link, or down
      rename_i part rest _
      split at h
      · exact ih h
      · split at h
        · exact absurd h (by simp)
        · dsimp only at h
          split at h
          · rename_i hfree
            split at h
            · cases h
              exact hfree
            · exact absurd h (by simp)
          · split at h
            · exact absurd h (by simp)
            · split at h
              · exact absurd h (by simp)
              · exact ih h
          · exact ih h
    · exact absurd h (by simp)

/-- Where a walk ends at a free place there is nothing. -/
theorem entry_eq_none_of_walk {follow : Bool} (h : d.walk follow p = .ok (.free location)) :
    entry? d location = none := by
  unfold walk at h
  split at h
  · exact absurd h (by simp)
  · exact entry_eq_none_of_walkFrom h

/-! ## Making directories -/

/-- The same files with the same bytes on two disks; directories and links do not count. -/
def SameFiles (d d' : Disk) : Prop :=
  ∀ location bytes,
    entry? d' location = some (.file bytes) ↔ entry? d location = some (.file bytes)

theorem SameFiles.trans {d'' : Disk} (h : SameFiles d d') (h' : SameFiles d' d'') :
    SameFiles d d'' :=
  fun location bytes => (h' location bytes).trans (h location bytes)

/-- Making a directory touches no file. -/
theorem sameFiles_makeDirectory (h : d.makeDirectory p = .ok d') : SameFiles d d' := by
  unfold makeDirectory at h
  split at h
  · exact absurd h (by simp [fail])
  · rename_i place hwalk
    have hfree := entry_eq_none_of_walk hwalk
    -- the root is a directory, so it is not what was free
    have hne : place ≠ [] := by
      rintro rfl
      exact absurd hfree (by simp [ entry?])
    cases h
    intro location bytes
    by_cases heq : location = place
    · rw [heq, entry_put_self hne, hfree]
      simp
    · rw [entry_put_of_ne heq]
  · exact absurd h (by simp [fail])

/-- Nor does making it unless it is there. -/
theorem sameFiles_ensureDirectory (h : d.ensureDirectory p = .ok d') : SameFiles d d' := by
  unfold ensureDirectory at h
  split at h
  · rename_i made hmade
    cases h
    exact sameFiles_makeDirectory hmade
  · split at h
    · cases h
      exact fun _ _ => Iff.rfl
    · exact absurd h (by simp)

/-- Nor does making all that lead to it. -/
theorem sameFiles_ensureAll {anchor : Path.Anchor} {parts : List String}
    (h : d.ensureAll anchor parts = .ok d') : SameFiles d d' := by
  induction parts generalizing d' with
  | nil =>
    cases h
    exact fun _ _ => Iff.rfl
  | cons last above ih =>
    unfold ensureAll at h
    dsimp only at h
    split at h
    · rename_i made hmade
      cases h
      exact sameFiles_makeDirectory hmade
    · split at h
      · -- the directories above are made first, then this one
        obtain ⟨made, hmade, h⟩ := Traversal.bind_eq_ok_iff.mp h
        exact (ih hmade).trans (sameFiles_ensureDirectory h)
      · split at h
        · cases h
          exact fun _ _ => Iff.rfl
        · exact absurd h (by simp)

theorem sameFiles_makeDirectories (h : d.makeDirectories p = .ok d') : SameFiles d d' :=
  sameFiles_ensureAll h

/-! ## Writing files -/

/-- The location that a path leads to, whether something is there or not. -/
def place? (d : Disk) (p : FilePath) : Option Location :=
  match d.walk true p with
  | .ok (.entry location _) | .ok (.free location) => some location
  | .error _ => none

/-- Writes a text, in a directory that is made if it is missing. -/
def writeText (d : Disk) (f : FilePath × String) : Except Error Disk := do
  let d ← d.makeDirectories f.1.parent
  d.write f.1 (Text.Utf8.encode f.2)

def writeTexts (d : Disk) : List (FilePath × String) → Except Error Disk
  | [] => .ok d
  | f :: rest => do
    let d ← d.writeText f
    d.writeTexts rest

/-- Where some texts go: each to the location that its path leads to when its turn comes. -/
def touched (d : Disk) : List (FilePath × String) → List Location
  | [] => []
  | f :: rest =>
    match d.makeDirectories f.1.parent, d.writeText f with
    | .ok made, .ok d' => (made.place? f.1).toList ++ d'.touched rest
    | _, _ => []

/-- A write puts the bytes at the place of its path. -/
theorem exists_put_of_write {bytes : List UInt8} (h : d.write p bytes = .ok d') :
    ∃ location, d.place? p = some location ∧ d' = d.put location (.file bytes) := by
  unfold write writeWith at h
  unfold place?
  cases hwalk : d.walk true p with
  | error cause =>
    rw [hwalk] at h
    exact absurd h (by simp [fail])
  | ok found =>
    rw [hwalk] at h
    cases found with
    | free location =>
      cases h
      exact ⟨location, rfl, rfl⟩
    | entry location e =>
      cases e with
      | file old =>
        cases h
        exact ⟨location, rfl, rfl⟩
      | _ => exact absurd h (by simp [fail])

/-- Writing two lists of texts is writing the one and then the other. -/
theorem writeTexts_append {first second : List (FilePath × String)} :
    d.writeTexts (first ++ second) = .ok d' ↔
      ∃ m, d.writeTexts first = .ok m ∧ m.writeTexts second = .ok d' := by
  induction first generalizing d with
  | nil => simp [writeTexts]
  | cons f rest ih =>
    rw [List.cons_append, writeTexts, writeTexts]
    simp only [Traversal.bind_eq_ok_iff, ih]
    grind

/-- **A file stays as it is** unless one of the paths leads to it. -/
theorem files_writeTexts {files : List (FilePath × String)} (h : d.writeTexts files = .ok d')
    (hnot : location ∉ d.touched files) (bytes : List UInt8) :
    entry? d' location = some (.file bytes) ↔ entry? d location = some (.file bytes) := by
  induction files generalizing d with
  | nil =>
    cases h
    exact Iff.rfl
  | cons f rest ih =>
    obtain ⟨m, hfirst, hrest⟩ := Traversal.bind_eq_ok_iff.mp h
    obtain ⟨made, hmade, hwrite⟩ := Traversal.bind_eq_ok_iff.mp hfirst
    obtain ⟨place, hplace, hput⟩ := exists_put_of_write hwrite
    unfold touched at hnot
    simp only [hmade, hfirst, hplace, List.mem_append, not_or] at hnot
    -- the place of this write is among those that are touched
    have hne : location ≠ place := by simpa using hnot.1
    rw [ih hrest hnot.2, hput, entry_put_of_ne hne]
    exact sameFiles_makeDirectories hmade location bytes

end Packwright.Disk
