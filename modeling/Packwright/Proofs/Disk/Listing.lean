import Packwright.Proofs.Disk.Walk

/-!
# What a directory lists

A directory lists the names that stand in it, and a path leads to a file by its last name only if the
name is listed in the directory that the rest of the path leads to.

* `exists_list_iff`: directories are what can be listed.
* `mem_list_of_isFile` goes by `Leads.exists_entry_of_concat`, an induction on how the path is
  followed: the last name is looked up in the directory where the rest has led, and there it is.
-/

namespace Packwright.Disk

open Packwright.Path

variable {d : Disk} {links : Nat} {here location : Location} {name : String} {parts : List String}
  {dir : FilePath} {names : List String}

/-- A listing, by an `iff`: the last parts of what lies directly below. -/
theorem list_eq_ok_iff : d.list dir = .ok names ↔
    ∃ location, d.walk true dir = .ok (.entry location .directory) ∧
      names = d.entries.filterMap fun (l, _) =>
        if l.dropLast = location && !l.isEmpty then l.getLast? else none := by
  unfold list
  constructor
  · intro h
    split at h
    · rename_i location hwalk
      exact ⟨location, hwalk, (Except.ok.inj h).symm⟩
    all_goals exact absurd h (by simp [fail])
  · rintro ⟨location, hwalk, rfl⟩
    rw [hwalk]

/-- A directory is where a walk comes to one. -/
theorem isDirectory_iff : d.isDirectory dir = true ↔
    ∃ location, d.walk true dir = .ok (.entry location .directory) := by
  unfold isDirectory
  split
  · rename_i location hwalk
    exact iff_of_true rfl ⟨location, hwalk⟩
  · rename_i hnone
    refine iff_of_false Bool.false_ne_true ?_
    rintro ⟨location, hwalk⟩
    exact hnone location hwalk

/-- **Directories are what can be listed.** -/
theorem exists_list_iff : (∃ names, d.list dir = .ok names) ↔ d.isDirectory dir = true := by
  rw [isDirectory_iff]
  constructor
  · rintro ⟨names, h⟩
    obtain ⟨location, hwalk, -⟩ := list_eq_ok_iff.mp h
    exact ⟨location, hwalk⟩
  · rintro ⟨location, hwalk⟩
    exact ⟨_, list_eq_ok_iff.mpr ⟨location, hwalk, rfl⟩⟩

/-- What leads to something by a last name leads to a directory first, where the name stands. -/
theorem Leads.exists_entry_of_concat {e : Entry} (h : d.Leads true links here parts (.entry location e))
    {before : List String} (hname : name ≠ "..") (hparts : parts = before ++ [name]) :
    ∃ there e', d.Leads true links here before (.entry there .directory) ∧
      d.entry? (there ++ [name]) = some e' := by
  generalize hfound : Found.entry location e = found at h
  induction h generalizing before with
  | arrived _ => exact absurd hparts (by simp)
  | @up links here rest found hhere _ ih =>
    cases before with
    | nil => exact absurd (List.cons.inj hparts).1.symm hname
    | cons first before =>
      obtain ⟨rfl, hrest⟩ := List.cons.inj hparts
      obtain ⟨there, e', hthere, hentry⟩ := ih hrest hfound
      exact ⟨there, e', .up hhere hthere, hentry⟩
  | free _ _ _ => exact nomatch hfound
  | unfollowed _ _ _ hfollow => exact nomatch hfollow
  | @link links here part target rest found hhere hpart hlink _ _ ih =>
    cases before with
    | nil =>
      obtain ⟨rfl, -⟩ := List.cons.inj hparts
      exact ⟨here, _, .arrived hhere, hlink⟩
    | cons first before =>
      -- the link puts its target in front of what is left
      obtain ⟨rfl, rfl⟩ := List.cons.inj hparts
      obtain ⟨there, e', hthere, hentry⟩ := ih (List.append_assoc _ _ _).symm hfound
      exact ⟨there, e', .link hhere hpart hlink (by simp) hthere, hentry⟩
  | @down links here part next rest found hhere hpart hnext hnot _ ih =>
    cases before with
    | nil =>
      obtain ⟨rfl, -⟩ := List.cons.inj hparts
      exact ⟨here, _, .arrived hhere, hnext⟩
    | cons first before =>
      obtain ⟨rfl, hrest⟩ := List.cons.inj hparts
      obtain ⟨there, e', hthere, hentry⟩ := ih hrest hfound
      exact ⟨there, e', .down hhere hpart hnext hnot hthere, hentry⟩

/-- **A file in a directory is listed there.** -/
theorem mem_list_of_isFile (hlist : d.list dir = .ok names) (hname : IsName name.toList)
    (hfile : d.isFile (dir.child name) = true) : name ∈ names := by
  obtain ⟨location, hwalk, rfl⟩ := list_eq_ok_iff.mp hlist
  obtain ⟨place, bytes, hplace⟩ : ∃ place bytes,
      d.walk true (dir.child name) = .ok (.entry place (.file bytes)) := by
    unfold isFile at hfile
    split at hfile
    · exact ⟨_, _, ‹_›⟩
    · exact absurd hfile (by simp)
  rw [FilePath.child_name dir hname] at hplace
  obtain ⟨hnull, hleads⟩ := walk_eq_ok_iff.mp hplace
  have hup : name ≠ ".." := fun heq => hname.ne_up (by rw [heq]; rfl)
  obtain ⟨there, e, hthere, hentry⟩ := hleads.exists_entry_of_concat hup rfl
  -- there is one directory that the path leads to
  have hdirNull : dir.parts.any holdsNull = false := by
    rw [List.any_append, Bool.or_eq_false_iff] at hnull
    exact hnull.1
  obtain rfl : location = there := by
    have hboth := hwalk.symm.trans (walk_eq_ok_iff.mpr ⟨hdirNull, hthere⟩)
    injection Except.ok.inj hboth
  have hmem : (location ++ [name], e) ∈ d.entries := by
    unfold entry? at hentry
    rw [if_neg (by simp)] at hentry
    exact Dictionary.mem_of_get?_eq_some hentry
  exact List.mem_filterMap.mpr ⟨_, hmem, by simp⟩

end Packwright.Disk
