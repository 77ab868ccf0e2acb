import Mathlib
import Packwright.Proofs.Compile.Globs
import Packwright.Proofs.Disk.Listing
import Packwright.Proofs.FirstOccurrence
import Packwright.Proofs.Unit.Loading

/-!
# The files of a program

A build compiles the sources in the directories of its units, and extra files. Several units may share
a directory, and an extra file may be a source of a unit.

* `sourceFiles_eq_ok_iff` and `lists_sourceNames`: what is found in one directory.
* `rootNames_eq_ok_iff`: when there is an answer for all of them, and which; `mem_rootNames` says where
  a file in it comes from.
* `rootNames_isRootSet`: each file is named once, sources before other files, and the patterns say the
  same.
-/

namespace Packwright

open Packwright.Path
open Packwright.Traversal

variable {disk : Disk} {dir : FilePath} {name : String} {units : List BuildUnit}
  {extra : List FilePath}

/-! ## The sources in one directory -/

/-- A source directly in a directory: a file, named like a source and not like a declaration file. -/
structure IsSourceIn (disk : Disk) (dir : FilePath) (name : String) : Prop where
  plain : FilePath.IsPlainName name
  source : sourceExtension <:+ name.toList
  not_declaration : ¬ declarationExtension <:+ name.toList
  file : disk.isFile (dir.child name) = true

/-- Whether names are those of the sources in a directory, in ascending order. -/
structure ListsSources (disk : Disk) (dir : FilePath) (names : List String) : Prop where
  ascending : names.Pairwise (· ≤ ·)
  mem_iff : ∀ name, name ∈ names ↔ IsSourceIn disk dir name

/-- The names of the sources in a directory, none if it cannot be listed. -/
def sourceNames (disk : Disk) (dir : FilePath) : List String :=
  match disk.list dir with
  | .ok names =>
    (names.filter fun n => isSourceName n && disk.isFile (dir.child n)).mergeSort fun a b => a ≤ b
  | .error _ => []

/-- A source is named as one and not as a declaration. -/
theorem isSourceName_iff : isSourceName name = true ↔
    sourceExtension <:+ name.toList ∧ ¬ declarationExtension <:+ name.toList := by
  unfold isSourceName
  rw [Bool.and_eq_true, Bool.not_eq_true', ← Bool.not_eq_true, List.isSuffixOf_iff_suffix,
    List.isSuffixOf_iff_suffix]
  rfl

/-- The sources of a directory, by an `iff`: they are found exactly if it is a directory. -/
theorem sourceFiles_eq_ok_iff {files : List FilePath} : sourceFiles disk dir = .ok files ↔
    disk.isDirectory dir = true ∧ files = (sourceNames disk dir).map dir.child := by
  rw [← Disk.exists_list_iff]
  unfold sourceFiles sourceNames
  cases disk.list dir with
  | error e => simp [Bind.bind, Except.bind]
  | ok names => simp [Bind.bind, Except.bind, Pure.pure, Except.pure, eq_comm]

/-- **What is found in a directory are its sources.** -/
theorem lists_sourceNames (hdir : disk.isDirectory dir = true)
    (hplain : ∀ names, disk.list dir = .ok names → ∀ name ∈ names, FilePath.IsPlainName name) :
    ListsSources disk dir (sourceNames disk dir) := by
  obtain ⟨names, hlist⟩ := Disk.exists_list_iff.mpr hdir
  unfold sourceNames
  rw [hlist]
  refine ⟨?_, fun name => ?_⟩
  · -- the order of names is total, so sorting them gives an ordered list
    have htrans : ∀ a b c : String, decide (a ≤ b) = true → decide (b ≤ c) = true →
        decide (a ≤ c) = true := by simpa using fun a b c : String => String.le_trans
    have htotal : ∀ a b : String, (decide (a ≤ b) || decide (b ≤ a)) = true := by
      simpa using fun a b : String => String.le_total a b
    simpa using List.pairwise_mergeSort htrans htotal _
  · rw [List.mem_mergeSort, List.mem_filter, Bool.and_eq_true, isSourceName_iff]
    constructor
    · rintro ⟨hname, ⟨hsource, hnot⟩, hfile⟩
      exact ⟨hplain names hlist name hname, hsource, hnot, hfile⟩
    · intro h
      exact ⟨Disk.mem_list_of_isFile hlist h.plain.1 h.file, ⟨h.source, h.not_declaration⟩, h.file⟩

namespace Compile

/-! ## All files -/

/-- The virtual paths of the sources of some units, directory by directory. -/
def sourcePaths (disk : Disk) (units : List BuildUnit) : List String :=
  (unitDirs units).flatMap fun dir => (sourceNames disk dir).map fun name => virtual (dir.child name)

/-- Keeping the first of each name is dropping the repeats. -/
theorem firsts_eq (names : List String) : firsts names = names.eraseDups :=
  FirstOccurrence.foldl_eq_eraseDups names

/-- The virtual paths of extra files. -/
def AreExtraPaths (disk : Disk) : List FilePath → List String → Prop :=
  List.Forall₂ fun p n => ∃ q, disk.resolve p = .ok q ∧ n = virtual q

/-- The extra paths are the resolved ones, by their virtual names. -/
theorem extraPaths_eq_ok_iff {extraNames : List String} :
    extraPaths disk extra = .ok extraNames ↔ AreExtraPaths disk extra extraNames := by
  unfold extraPaths AreExtraPaths
  rw [mapM_eq_ok_iff]
  have hone : ∀ p n, (disk.resolve p).map virtual = .ok n ↔
      ∃ q, disk.resolve p = .ok q ∧ n = virtual q := by
    intro p n
    cases disk.resolve p <;> simp [Except.map, eq_comm]
  simp only [hone]

/-- They are found exactly if each can be resolved. -/
theorem exists_areExtraPaths_iff : (∃ extraNames, AreExtraPaths disk extra extraNames) ↔
    ∀ p ∈ extra, ∃ q, disk.resolve p = .ok q := by
  constructor
  · rintro ⟨extraNames, h⟩
    have hboth : List.Forall₂ (fun p _ => (∃ q, disk.resolve p = .ok q) ∧ True) extra extraNames :=
      h.imp fun p n ⟨q, hq, _⟩ => ⟨⟨q, hq⟩, trivial⟩
    exact ((List.forall₂_and_left _ _).mp hboth).1
  · intro h
    exact exists_forall₂ fun p hp => (h p hp).elim fun q hq => ⟨virtual q, q, hq, rfl⟩

/-- **There is an answer** if every directory of a unit can be listed and every extra file resolved;
it names the sources and the extra files, each at its first occurrence. -/
theorem rootNames_eq_ok_iff {names : List String} : rootNames disk units extra = .ok names ↔
    (∀ dir ∈ unitDirs units, disk.isDirectory dir = true) ∧ ∃ extraNames,
      AreExtraPaths disk extra extraNames ∧
      names = (sourcePaths disk units ++ extraNames).eraseDups := by
  have hfound : ∀ found : List (List FilePath),
      (unitDirs units).mapM (fun d => sourceFiles disk d) = .ok found ↔
        (∀ dir ∈ unitDirs units, disk.isDirectory dir = true) ∧
          found = (unitDirs units).map fun dir => (sourceNames disk dir).map dir.child := by
    intro found
    simp only [mapM_eq_ok_iff, sourceFiles_eq_ok_iff, forall₂_eq_iff]
  -- listing by unit and directory and taking virtual paths is the list of source paths
  have hflat : ((unitDirs units).map fun dir => (sourceNames disk dir).map dir.child).flatten.map
      virtual = sourcePaths disk units := by
    unfold sourcePaths
    rw [← List.flatMap_def, List.map_flatMap]
    simp only [List.map_map]
    rfl
  unfold rootNames
  simp only [bind_eq_ok_iff, mapError_eq_ok_iff, hfound, extraPaths_eq_ok_iff, firsts_eq]
  constructor
  · rintro ⟨found, ⟨hdirs, rfl⟩, extraNames, hextra, hnames⟩
    rw [hflat] at hnames
    exact ⟨hdirs, extraNames, hextra, (Except.ok.inj hnames).symm⟩
  · rintro ⟨hdirs, extraNames, hextra, rfl⟩
    refine ⟨_, ⟨hdirs, rfl⟩, extraNames, hextra, ?_⟩
    rw [hflat]
    rfl

/-- **A compiled file** is an extra file or a source in a directory of a unit. -/
theorem mem_rootNames {names extraNames : List String} (h : rootNames disk units extra = .ok names)
    (hextra : extraPaths disk extra = .ok extraNames) {n : String} (hn : n ∈ names) :
    n ∈ extraNames ∨ ∃ u ∈ units, ∃ dir ∈ u.dirs, ∃ listed, disk.list dir = .ok listed ∧
      ∃ name ∈ listed, isSourceName name = true ∧ n = virtual (dir.child name) := by
  obtain ⟨hdirs, found, hfound, rfl⟩ := rootNames_eq_ok_iff.mp h
  obtain rfl : found = extraNames :=
    Except.ok.inj ((extraPaths_eq_ok_iff.mpr hfound).symm.trans hextra)
  -- dropping repeats drops no name
  rw [List.mem_eraseDups] at hn
  refine (List.mem_append.mp hn).symm.imp_right fun hsource => ?_
  obtain ⟨dir, hdir, hpath⟩ := List.mem_flatMap.mp hsource
  obtain ⟨name, hname, rfl⟩ := List.mem_map.mp hpath
  obtain ⟨u, hu, hudir⟩ := List.mem_flatMap.mp hdir
  obtain ⟨listed, hlisted, other, hother, hsourceName, heq⟩ :=
    mem_sourceFiles (sourceFiles_eq_ok_iff.mpr ⟨hdirs dir hdir, rfl⟩) (List.mem_map_of_mem hname)
  exact ⟨u, hu, dir, hudir, listed, hlisted, other, hother, hsourceName, congrArg virtual heq⟩

/-- The names of a program: of the sources in the directories of its units, and of extra files. -/
structure IsRootSet (disk : Disk) (units : List BuildUnit) (extraNames names : List String) :
    Prop where
  nodup : names.Nodup
  mem_iff : ∀ n, n ∈ names ↔ n ∈ extraNames ∨
    ∃ dir ∈ unitDirs units, ∃ name, IsSourceIn disk dir name ∧ n = virtual (dir.child name)
  first_occurrence : names = (sourcePaths disk units ++ extraNames).eraseDups
  sources_first : ∃ others, names = (sourcePaths disk units).eraseDups ++ others ∧
    ∀ n ∈ others, n ∈ extraNames ∧ n ∉ sourcePaths disk units

/-- Whether the directories of a program are written without backslashes, and hold no names with
any. -/
structure PlainlyNamed (disk : Disk) (dirs : List FilePath) : Prop where
  written : ∀ dir ∈ dirs, dir.WrittenPlainly
  listed : ∀ dir ∈ dirs, ∀ names, disk.list dir = .ok names →
    ∀ name ∈ names, FilePath.IsPlainName name

/-- A source path is that of a source in one of the directories. -/
theorem mem_sourcePaths_iff (hplain : PlainlyNamed disk (unitDirs units))
    (hdirs : ∀ dir ∈ unitDirs units, disk.isDirectory dir = true) {n : String} :
    n ∈ sourcePaths disk units ↔
      ∃ dir ∈ unitDirs units, ∃ name, IsSourceIn disk dir name ∧ n = virtual (dir.child name) := by
  unfold sourcePaths
  rw [List.mem_flatMap]
  refine exists_congr fun dir => and_congr_right fun hdir => ?_
  have hlists := lists_sourceNames (hdirs dir hdir) (hplain.listed dir hdir)
  simp only [List.mem_map, hlists.mem_iff, eq_comm]

/-- The names without their repeats are what a set of root names should be. -/
theorem isRootSet_eraseDups (hplain : PlainlyNamed disk (unitDirs units))
    (hdirs : ∀ dir ∈ unitDirs units, disk.isDirectory dir = true) (extraNames : List String) :
    IsRootSet disk units extraNames (sourcePaths disk units ++ extraNames).eraseDups where
  nodup := FirstOccurrence.nodup_eraseDups _
  mem_iff n := by
    rw [List.mem_eraseDups, List.mem_append, mem_sourcePaths_iff hplain hdirs, or_comm]
  first_occurrence := rfl
  sources_first := by
    refine ⟨_, List.eraseDups_append, fun n hn => ?_⟩
    rw [List.mem_eraseDups] at hn
    simpa [List.removeAll] using hn

/-- The globs of the directories come first, and then the extra paths. -/
theorem includeGlobs_eq {extraNames : List String} (h : AreExtraPaths disk extra extraNames) :
    includeGlobs disk units extra = .ok ((unitDirs units).map globOf ++ extraNames) := by
  unfold includeGlobs
  rw [extraPaths_eq_ok_iff.mpr h]
  rfl

/-- **The files of a program.** They are named if every directory of a unit can be listed and every
extra file resolved. Then each source directly in one of the directories and each extra file is named
once, and nothing else is: in order of first occurrence, directory by directory and ascending in each,
and every source before any file that is none. Each name matches the pattern of a directory, or it is
among the patterns itself. -/
theorem rootNames_isRootSet (hplain : PlainlyNamed disk (unitDirs units)) :
    ((∃ names, rootNames disk units extra = .ok names) ↔
      (∀ dir ∈ unitDirs units, disk.isDirectory dir = true) ∧
        ∀ p ∈ extra, ∃ q, disk.resolve p = .ok q) ∧
    ∀ names, rootNames disk units extra = .ok names → ∃ extraNames,
      AreExtraPaths disk extra extraNames ∧ IsRootSet disk units extraNames names ∧
      (∀ dir ∈ unitDirs units, ListsSources disk dir (sourceNames disk dir)) ∧
      includeGlobs disk units extra = .ok ((unitDirs units).map globOf ++ extraNames) ∧
      ∀ n ∈ names, n ∈ extraNames ∨ ∃ dir ∈ unitDirs units, GlobMatches (globOf dir) n := by
  constructor
  · simp only [rootNames_eq_ok_iff, ← exists_areExtraPaths_iff]
    constructor
    · rintro ⟨_, hdirs, extraNames, hextra, -⟩
      exact ⟨hdirs, extraNames, hextra⟩
    · rintro ⟨hdirs, extraNames, hextra⟩
      exact ⟨_, hdirs, extraNames, hextra, rfl⟩
  · intro names hnames
    -- every name is a source of a directory, which its glob matches, or an extra path
    obtain ⟨hdirs, extraNames, hextra, rfl⟩ := rootNames_eq_ok_iff.mp hnames
    have hroot := isRootSet_eraseDups hplain hdirs extraNames
    refine ⟨extraNames, hextra, hroot, fun dir hdir =>
      lists_sourceNames (hdirs dir hdir) (hplain.listed dir hdir), includeGlobs_eq hextra,
      fun n hn => ((hroot.mem_iff n).mp hn).imp_right ?_⟩
    rintro ⟨dir, hdir, name, hname, rfl⟩
    exact ⟨dir, hdir, globMatches_child (hplain.written dir hdir) hname.plain hname.source⟩

/-- Sources and a declaration file in one directory, and a file beside it. -/
def sharedDirectory : Disk :=
  ⟨[(["w"], .directory), (["w", "src"], .directory), (["w", "src", "b.ts"], .file []),
    (["w", "src", "a.d.ts"], .file []), (["w", "src", "a.ts"], .file []),
    (["w", "demo.ts"], .file [])], ["w"]⟩

/-- A unit of the directory. -/
def directoryUnit (entry : String) : BuildUnit where
  entry := .ofLocation ["w", "src", entry]
  root := .ofLocation ["w"]
  sourceDir := .ofLocation ["w", "src"]
  testDir? := none
  tests := []
  manifest := ⟨entry, []⟩
  needsGrammar := false

/-- Two units share the directory, and one of their sources is an extra file as well. -/
theorem rootNames_isRootSet_sharedDirectory :
    PlainlyNamed sharedDirectory (unitDirs [directoryUnit "a.ts", directoryUnit "b.ts"]) ∧
      rootNames sharedDirectory [directoryUnit "a.ts", directoryUnit "b.ts"]
          [.ofString "demo.ts", .ofString "src/a.ts"] =
        .ok ["/w/src/a.ts", "/w/src/b.ts", "/w/demo.ts"] ∧
      ∃ extraNames, IsRootSet sharedDirectory [directoryUnit "a.ts", directoryUnit "b.ts"] extraNames
          ["/w/src/a.ts", "/w/src/b.ts", "/w/demo.ts"] ∧
        includeGlobs sharedDirectory [directoryUnit "a.ts", directoryUnit "b.ts"]
            [.ofString "demo.ts", .ofString "src/a.ts"] =
          .ok (["/w/src/*.ts", "/w/src/*.ts"] ++ extraNames) := by
  have hlist : sharedDirectory.list (.ofLocation ["w", "src"]) =
      .ok ["b.ts", "a.d.ts", "a.ts"] := by cbv
  have hsources : sourceFiles sharedDirectory (.ofLocation ["w", "src"]) =
      .ok [.ofLocation ["w", "src", "a.ts"], .ofLocation ["w", "src", "b.ts"]] := by cbv
  have hdirs : unitDirs [directoryUnit "a.ts", directoryUnit "b.ts"] =
      [.ofLocation ["w", "src"], .ofLocation ["w", "src"]] := rfl
  have hplain : PlainlyNamed sharedDirectory
      (unitDirs [directoryUnit "a.ts", directoryUnit "b.ts"]) := by
    -- both units have the one directory
    have honly : ∀ dir ∈ unitDirs [directoryUnit "a.ts", directoryUnit "b.ts"],
        dir = .ofLocation ["w", "src"] := by
      decide
    refine ⟨fun dir hdir => ?_, fun dir hdir names hnames name hname => ?_⟩
    · rw [honly dir hdir]
      exact ⟨⟨"/w/src", by decide +kernel⟩, by decide +kernel⟩
    · rw [honly dir hdir] at hnames
      rw [← Except.ok.inj (hlist.symm.trans hnames)] at hname
      have hall : ∀ name ∈ ["b.ts", "a.d.ts", "a.ts"], FilePath.IsPlainName name := by decide +kernel
      exact hall name hname
  have hnames : rootNames sharedDirectory [directoryUnit "a.ts", directoryUnit "b.ts"]
      [.ofString "demo.ts", .ofString "src/a.ts"] =
        .ok ["/w/src/a.ts", "/w/src/b.ts", "/w/demo.ts"] := by
    have hextra : extraPaths sharedDirectory [.ofString "demo.ts", .ofString "src/a.ts"] =
        .ok ["/w/demo.ts", "/w/src/a.ts"] := by cbv
    unfold rootNames
    rw [hdirs, hextra]
    simp only [List.mapM_cons, hsources]
    decide +kernel
  have hglob : globOf (.ofLocation ["w", "src"]) = "/w/src/*.ts" := by decide +kernel
  obtain ⟨extraNames, -, hroot, -, hglobs, -⟩ := (rootNames_isRootSet hplain).2 _ hnames
  rw [hdirs, List.map_cons, List.map_cons, hglob] at hglobs
  exact ⟨hplain, hnames, extraNames, hroot, hglobs⟩

end Compile

end Packwright
