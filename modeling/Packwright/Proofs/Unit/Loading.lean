import Packwright.Proofs.Path.File
import Packwright.Proofs.Traversal
import Packwright.Unit.Load

/-!
# What a unit on disk looks like

A unit is derived from what stands around its entry file. All of it is what the disk says of that
place, and a unit is found exactly if the disk says all of it (`load_eq_ok_iff`).

* `IsLaidOut` is what the disk says of a unit.
* `parent_of_mem_dirs` and `exists_of_mem_tests`: its directories stand in its root, and its tests
  in one of them.
-/

namespace Packwright

open Packwright.Traversal

/-- What is listed is named, and a source is named like one. -/
theorem mem_sourceFiles {disk : Disk} {dir p : FilePath} {files : List FilePath}
    (h : sourceFiles disk dir = .ok files) (hp : p ∈ files) :
    ∃ names, disk.list dir = .ok names ∧
      ∃ name ∈ names, isSourceName name = true ∧ p = dir.child name := by
  unfold sourceFiles at h
  obtain ⟨names, hnames, h⟩ := bind_eq_ok_iff.mp h
  rw [← Except.ok.inj h] at hp
  obtain ⟨name, hname, rfl⟩ := List.mem_map.mp hp
  obtain ⟨hin, hkept⟩ := List.mem_filter.mp (List.mem_mergeSort.mp hname)
  exact ⟨names, hnames, name, hin, (Bool.and_eq_true_iff.mp hkept).1, rfl⟩

namespace BuildUnit

variable {disk : Disk} {entry : FilePath} {u : BuildUnit}

/-- Whether a unit is what a disk says of the place around an entry file. -/
structure IsLaidOut (disk : Disk) (entry : FilePath) (u : BuildUnit) : Prop where
  entry : disk.resolve entry = .ok u.entry
  sourceDir : u.sourceDir = u.entry.parent
  root : u.root = u.sourceDir.parent
  testDir : u.testDir? = testDirOf? disk u.root
  untested : u.testDir? = none → u.tests = []
  tests : ∀ dir, u.testDir? = some dir → sourceFiles disk dir = .ok u.tests
  grammar : hasGrammar disk u.sourceDir = .ok u.needsGrammar
  manifest : Manifest.load disk u.root = .ok u.manifest

/-- **A unit is found exactly if the disk says all of it.** -/
theorem load_eq_ok_iff : BuildUnit.load disk entry = .ok u ↔ u.IsLaidOut disk entry := by
  constructor
  · intro h
    unfold BuildUnit.load at h
    obtain ⟨resolved, hresolved, h⟩ := bind_eq_ok_iff.mp h
    dsimp only at h
    -- tests are looked for only where there is a directory for them
    cases htest : testDirOf? disk resolved.parent.parent
    all_goals
      rw [htest] at h
      obtain ⟨tests, htests, h⟩ := bind_eq_ok_iff.mp h
      obtain ⟨needsGrammar, hgrammar, h⟩ := bind_eq_ok_iff.mp h
      obtain ⟨manifest, hmanifest, h⟩ := bind_eq_ok_iff.mp h
      obtain rfl := Except.ok.inj h
    case none =>
      exact ⟨mapError_eq_ok_iff.mp hresolved, rfl, rfl, htest.symm, fun _ => (Except.ok.inj htests).symm,
        fun dir hdir => (nomatch hdir), mapError_eq_ok_iff.mp hgrammar, hmanifest⟩
    case some dir =>
      refine ⟨mapError_eq_ok_iff.mp hresolved, rfl, rfl, htest.symm, fun hnone => (nomatch hnone), ?_,
        mapError_eq_ok_iff.mp hgrammar, hmanifest⟩
      rintro _ ⟨⟩
      exact mapError_eq_ok_iff.mp htests
  · rintro ⟨hentry, hsourceDir, hroot, htestDir, huntested, htests, hgrammar, hmanifest⟩
    obtain ⟨entry', root, sourceDir, testDir?, tests, manifest, needsGrammar⟩ := u
    dsimp only at hentry hsourceDir hroot htestDir huntested htests hgrammar hmanifest
    subst hsourceDir hroot
    unfold BuildUnit.load
    refine bind_eq_ok_iff.mpr ⟨entry', mapError_eq_ok_iff.mpr hentry, ?_⟩
    dsimp only
    rw [← htestDir]
    cases testDir?
    all_goals
      refine bind_eq_ok_iff.mpr ⟨tests, ?_, ?tail⟩
      case tail =>
        refine bind_eq_ok_iff.mpr ⟨needsGrammar, mapError_eq_ok_iff.mpr hgrammar, ?_⟩
        exact bind_eq_ok_iff.mpr ⟨manifest, hmanifest, rfl⟩
    case none => exact congrArg Except.ok (huntested rfl).symm
    case some dir => exact mapError_eq_ok_iff.mpr (htests dir rfl)

/-- The tests of a unit are in one place, if anywhere. -/
theorem testDirOf?_eq {root dir : FilePath} (h : testDirOf? disk root = some dir) :
    dir = root.child "test" := by
  unfold testDirOf? at h
  dsimp only at h
  split at h
  · exact (Option.some.inj h).symm
  · exact absurd h (by simp)

namespace IsLaidOut

variable (h : u.IsLaidOut disk entry)

include h

/-- A directory of a unit stands in its root. -/
theorem parent_of_mem_dirs {dir : FilePath} (hdir : dir ∈ u.dirs) : dir.parent = u.root := by
  rcases List.mem_cons.mp hdir with rfl | hmem
  · exact h.root.symm
  · rw [testDirOf?_eq (h.testDir.symm.trans (Option.mem_toList.mp hmem))]
    exact FilePath.parent_child u.root (by decide)

/-- A test of a unit was found in its directory of tests. -/
theorem exists_of_mem_tests {t : FilePath} (ht : t ∈ u.tests) :
    ∃ dir ∈ u.dirs, ∃ names, disk.list dir = .ok names ∧
      ∃ name ∈ names, isSourceName name = true ∧ t = dir.child name := by
  cases hdir : u.testDir? with
  | none =>
    rw [h.untested hdir] at ht
    exact absurd ht List.not_mem_nil
  | some dir =>
    exact ⟨dir, List.mem_cons_of_mem _ (Option.mem_toList.mpr hdir), mem_sourceFiles (h.tests dir hdir) ht⟩

end IsLaidOut

end BuildUnit

end Packwright
