import Mathlib
import Packwright.Proofs.Compile.RootNames
import Packwright.Proofs.Watch.Acts

/-!
# What belongs to whom

The outputs of a program come back to the coordinator as changed paths. From a path alone it finds
the source again, and from the directory around it the unit; the sources were listed directory by
directory. The two ways agree:

* `Output.sourcePathFor_path`: an output leads back to its source.
* `Watches.rootOf_path`: the directory above the directory of an output is the root of the unit that
  holds the source.
* `classify_outputs`: so every batch of outputs is classified.
-/

namespace Packwright

open Packwright.Traversal

def BuildUnit.holds (u : BuildUnit) (source : String) : Bool :=
  (u.dirs.map Compile.virtual).contains (Path.parent source)

namespace Watch

/-- The two outputs that a source is compiled to. -/
inductive OutputKind where
  | code
  | types
  deriving Repr, DecidableEq

def OutputKind.extension : OutputKind → String
  | code => ".js"
  | types => ".d.ts"

/-- An output of a source. -/
structure Output where
  source : String
  kind : OutputKind
  deriving Repr, DecidableEq

def Output.path (o : Output) : String :=
  Path.compiledPath o.source o.kind.extension

namespace Coordinator

/-- Whether the outputs of a source are written through: it is an extra file, or a test of the unit
that holds it. -/
def passes (c : Coordinator) (source : String) : Bool :=
  c.extra.contains source || c.units.any fun u => u.holds source && u.testPaths.contains source

/-- Whether a unit is the one that holds a source. -/
def Owns (c : Coordinator) (u : BuildUnit) (source : String) : Prop :=
  u ∈ c.units ∧ u.holds source = true ∧ ∀ v ∈ c.units, v.holds source = true → v = u

/-- A coordinator of registered units and extra files: no other registered unit has the root of one
of them, and their directories and what is in them are written with plain names. -/
structure Watches (c : Coordinator) (disk : Disk) (extra : List FilePath) : Prop where
  registered : ∀ u ∈ c.units, u ∈ c.bundler.registry
  loaded : ∀ u ∈ c.units, ∃ disk entry, BuildUnit.load disk entry = .ok u
  roots : ∀ u ∈ c.units, ∀ v ∈ c.bundler.registry, v.root = u.root → v = u
  dirs : ∀ u ∈ c.units, ∀ dir ∈ u.dirs, dir.Plain
  names : ∀ u ∈ c.units, ∀ dir ∈ u.dirs, ∀ names, disk.list dir = .ok names →
    ∀ name ∈ names, FilePath.IsPlainName name
  extras : Compile.extraPaths disk extra = .ok c.extra
  extraSources : ∀ source ∈ c.extra, Path.sourceExtension <:+ source.toList

end Coordinator

/-! ## From an output back to its source -/

/-- The two kinds of output are told by the two extensions. -/
theorem OutputKind.extension_cases (k : OutputKind) :
    k.extension.toList = Path.moduleExtension ∨ k.extension.toList = Path.declarationExtension := by
  cases k
  · exact Or.inl rfl
  · exact Or.inr rfl

theorem OutputKind.isEnding_extension (k : OutputKind) : Path.IsEnding k.extension.toList := by
  cases k <;> decide

/-- **An output leads back to its source**, if that is in normal form and has the ending of one. -/
theorem Output.sourcePathFor_path (o : Output) (hnormal : Path.normalize o.source = o.source)
    (hts : Path.sourceExtension <:+ o.source.toList) : Path.sourcePathFor o.path = o.source := by
  have hsource : Path.NamesSource o.source := by
    unfold Path.NamesSource
    rw [hnormal]
    exact hts
  exact (Path.sourcePathFor_compiledPath hsource o.kind.extension_cases).trans hnormal

theorem normalize_virtual (p : FilePath) :
    Path.normalize (Compile.virtual p) = Compile.virtual p := by
  unfold Compile.virtual Path.normalize
  rw [String.toList_ofList, Path.normalizeChars_idem]

/-! ## From an output to the unit of its source -/

namespace Coordinator

variable {c : Coordinator} {disk : Disk} {extra : List FilePath} {u : BuildUnit} {dir : FilePath}
  {name : String}

/-- A source in a directory of a unit. -/
structure Stands (u : BuildUnit) (dir : FilePath) (name : String) : Prop where
  mem : dir ∈ u.dirs
  plain : dir.Plain
  plainName : FilePath.IsPlainName name
  isSource : Path.sourceExtension <:+ name.toList

/-- A source of a unit has a plain path, so its virtual path is its spelling. -/
theorem Stands.virtual_eq (h : Stands u dir name) :
    Compile.virtual (dir.child name) = (dir.child name).toString :=
  FilePath.virtual_eq (h.plain.child h.plainName)

theorem Stands.isSource_virtual (h : Stands u dir name) :
    Path.sourceExtension <:+ (Compile.virtual (dir.child name)).toList := by
  obtain ⟨front, hfront⟩ := FilePath.exists_toString_child h.plain
  rw [h.virtual_eq, hfront name h.plainName]
  exact h.isSource.trans (List.suffix_append _ _)

/-- The output of a source stands beside it: its name has the other ending. -/
theorem Stands.exists_path_eq (h : Stands u dir name) (k : OutputKind) :
    ∃ base other, name.toList = base ++ Path.sourceExtension ∧
      other.toList = base ++ k.extension.toList ∧ FilePath.IsPlainName other ∧
      Output.path ⟨Compile.virtual (dir.child name), k⟩ = (dir.child other).toString := by
  obtain ⟨front, hfront⟩ := FilePath.exists_toString_child h.plain
  obtain ⟨base, hbase⟩ := h.isSource
  obtain ⟨hname, hback⟩ := h.plainName
  have hslash : '/' ∉ base := fun hmem =>
    hname.no_slash (hbase ▸ List.mem_append_left _ hmem)
  have hending := k.isEnding_extension
  have hother : FilePath.IsPlainName (String.ofList (base ++ k.extension.toList)) := by
    unfold FilePath.IsPlainName
    rw [String.toList_ofList]
    refine ⟨hending.isName hslash, fun hmem => ?_⟩
    rcases List.mem_append.mp hmem with hleft | hright
    · exact hback (hbase ▸ List.mem_append_left _ hleft)
    · exact hending.2.2.1 hright
  refine ⟨base, _, hbase.symm, String.toList_ofList, hother, ?_⟩
  obtain ⟨stem, hstem, houtput⟩ := Path.exists_compiledPathChars h.isSource_virtual
  -- both are the text in front of the names, the base of the name and an ending
  have hstemEq : stem = front ++ base := by
    rw [Path.normalizeChars_toList (normalize_virtual _), h.virtual_eq, hfront name h.plainName,
      ← hbase, ← List.append_assoc] at hstem
    exact (List.append_cancel_right hstem).symm
  unfold Output.path Path.compiledPath
  rw [houtput, ← String.toList_inj, String.toList_ofList, hfront _ hother, String.toList_ofList,
    hstemEq, List.append_assoc]

/-- **The root of an output**: two directories above an output of a unit's source stands the unit's
root. -/
theorem Stands.rootOf_path (h : Stands u dir name) (k : OutputKind) :
    rootOf (Output.path ⟨Compile.virtual (dir.child name), k⟩) = dir.parent := by
  obtain ⟨-, other, -, -, hother, hpath⟩ := h.exists_path_eq k
  unfold rootOf
  rw [hpath, FilePath.parent_toString (h.plain.child hother), FilePath.parent_child dir hother.1,
    FilePath.parent_toString h.plain, FilePath.ofString_toString h.plain.parent]

/-- Its virtual directory is the directory it was found in. -/
theorem Stands.parent_virtual (h : Stands u dir name) :
    Path.parent (Compile.virtual (dir.child name)) = dir.toString := by
  rw [h.virtual_eq, FilePath.parent_toString (h.plain.child h.plainName),
    FilePath.parent_child dir h.plainName.1]

/-- The directories of a unit lie directly below its root. -/
theorem Watches.parent_root (h : c.Watches disk extra) (hu : u ∈ c.units) (hdir : dir ∈ u.dirs) :
    dir.parent = u.root := by
  obtain ⟨disk', entry, hload⟩ := h.loaded u hu
  exact (BuildUnit.load_eq_ok_iff.mp hload).parent_of_mem_dirs hdir

/-- **A unit is found by its root.** -/
theorem Watches.byRoot_eq (h : c.Watches disk extra) (hu : u ∈ c.units) :
    c.bundler.registry.byRoot u.root = some u := by
  unfold Registry.byRoot
  cases hfound : List.find? (fun v => v.root = u.root) c.bundler.registry with
  | none => exact absurd (decide_eq_true rfl) (List.find?_eq_none.mp hfound u (h.registered u hu))
  | some v =>
    have hroot : v.root = u.root := by simpa using List.find?_some hfound
    rw [h.roots u hu v (List.mem_of_find?_eq_some hfound) hroot]

/-- **The unit that holds a source** is the only one that does. -/
theorem Watches.owns (h : c.Watches disk extra) (hu : u ∈ c.units) (hstands : Stands u dir name) :
    c.Owns u (Compile.virtual (dir.child name)) := by
  refine ⟨hu, ?_, fun v hv hholds => ?_⟩
  · unfold BuildUnit.holds
    rw [hstands.parent_virtual, ← FilePath.virtual_eq hstands.plain]
    exact List.contains_iff_mem.mpr (List.mem_map_of_mem hstands.mem)
  · -- two units that hold it share a directory, and so a root
    unfold BuildUnit.holds at hholds
    rw [hstands.parent_virtual] at hholds
    obtain ⟨dir', hdir', htext⟩ := List.mem_map.mp (List.contains_iff_mem.mp hholds)
    have hplain := h.dirs v hv dir' hdir'
    rw [FilePath.virtual_eq hplain] at htext
    have heq := FilePath.eq_of_toString_eq hplain hstands.plain htext
    refine h.roots u hu v (h.registered v hv) ?_
    rw [← h.parent_root hv hdir', ← h.parent_root hu hstands.mem, heq]

/-- Of a source that a unit owns, whether it is passed on depends on the extra sources and the tests
of this unit. -/
theorem passes_of_owns {source : String} (h : c.Owns u source) :
    c.passes source = (c.extra.contains source || u.testPaths.contains source) := by
  obtain ⟨hu, hholds, honly⟩ := h
  unfold passes
  refine congrArg (c.extra.contains source || ·) ?_
  rw [Bool.eq_iff_iff, List.any_eq_true]
  constructor
  · rintro ⟨v, hv, hboth⟩
    obtain ⟨hvholds, htest⟩ := Bool.and_eq_true_iff.mp hboth
    rwa [honly v hv hvholds] at htest
  · exact fun htest => ⟨u, hu, by rw [hholds, htest]; rfl⟩

/-- Where a compiled source stands. -/
theorem Watches.exists_stands (h : c.Watches disk extra) {names : List String}
    (hnames : Compile.rootNames disk c.units extra = .ok names) {source : String}
    (hsource : source ∈ names) : source ∈ c.extra ∨ ∃ u ∈ c.units, ∃ dir name,
      Stands u dir name ∧ source = Compile.virtual (dir.child name) := by
  refine (Compile.mem_rootNames hnames h.extras hsource).imp_right ?_
  rintro ⟨u, hu, dir, hdir, listed, hlisted, name, hname, hsourceName, rfl⟩
  have hending : Path.sourceExtension <:+ name.toList :=
    List.isSuffixOf_iff_suffix.mp (Bool.and_eq_true_iff.mp hsourceName).1
  have hplain := h.names u hu dir hdir listed hlisted name hname
  exact ⟨u, hu, dir, name, ⟨hdir, h.dirs u hu dir hdir, hplain, hending⟩, rfl⟩

/-- The source of an output is found again from its path. -/
theorem Watches.sourcePathFor_path (h : c.Watches disk extra) {names : List String}
    (hnames : Compile.rootNames disk c.units extra = .ok names) {o : Output}
    (ho : o.source ∈ names) : Path.sourcePathFor o.path = o.source := by
  rcases h.exists_stands hnames ho with hextra | ⟨u, -, dir, name, hstands, heq⟩
  · -- an extra file has been made absolute and brought into normal form
    obtain ⟨p, -, hp⟩ := exists_of_mem_mapM h.extras hextra
    have hvirtual : ∃ q, o.source = Compile.virtual q := by
      cases hresolved : disk.resolve p with
      | error e => rw [hresolved] at hp; exact absurd hp (by simp [Except.map])
      | ok q => rw [hresolved] at hp; exact ⟨q, (Except.ok.inj hp).symm⟩
    obtain ⟨q, hq⟩ := hvirtual
    exact o.sourcePathFor_path (hq ▸ normalize_virtual q) (h.extraSources _ hextra)
  · exact o.sourcePathFor_path (heq ▸ normalize_virtual _) (heq ▸ hstands.isSource_virtual)

/-- What an owner says of an output: whether it is written through, and who holds its source. -/
def Fits (c : Coordinator) (o : Output) (owner : Owner) : Prop :=
  c.passes o.source = true ∧ owner = .passThrough ∨
    c.passes o.source = false ∧ ∃ u, c.Owns u o.source ∧ owner = .unit u

/-- **The owner of an output**: nobody if it is written through, and otherwise the unit that holds
its source. -/
theorem Watches.owner_path (h : c.Watches disk extra) {names : List String}
    (hnames : Compile.rootNames disk c.units extra = .ok names) {o : Output}
    (ho : o.source ∈ names) :
    ∃ owner, c.owner o.path = .ok owner ∧ c.Fits o owner := by
  unfold owner
  simp only [h.sourcePathFor_path hnames ho]
  by_cases hextra : o.source ∈ c.extra
  · have hcontains : c.extra.contains o.source = true := List.contains_iff_mem.mpr hextra
    have hpasses : c.passes o.source = true := by unfold passes; rw [hcontains]; rfl
    exact ⟨.passThrough, if_pos hcontains, .inl ⟨hpasses, rfl⟩⟩
  · -- otherwise it was listed in a directory of a unit, and that unit is found again
    have hcontains : c.extra.contains o.source = false := by simpa using hextra
    obtain ⟨u, hu, dir, name, hstands, heq⟩ := (h.exists_stands hnames ho).resolve_left hextra
    have howns : c.Owns u o.source := heq ▸ h.owns hu hstands
    have hroot : rootOf o.path = u.root := by
      obtain ⟨source, kind⟩ := o
      rw [show source = _ from heq, hstands.rootOf_path, h.parent_root hu hstands.mem]
    have hunit : c.units.contains u = true := List.contains_iff_mem.mpr hu
    have hpasses : c.passes o.source = u.testPaths.contains o.source := by
      rw [passes_of_owns howns, hcontains]
      rfl
    simp only [hcontains, hroot, h.byRoot_eq hu, hunit]
    cases htest : u.testPaths.contains o.source with
    | true => exact ⟨.passThrough, rfl, .inl ⟨hpasses.trans htest, rfl⟩⟩
    | false => exact ⟨.unit u, rfl, .inr ⟨hpasses.trans htest, u, howns, rfl⟩⟩

/-! ## A whole batch -/

/-- The outputs that are written through. -/
theorem directPaths_of_fits {outputs : List Output} {owners : List Owner}
    (h : List.Forall₂ c.Fits outputs owners) :
    directPaths (outputs.map Output.path) owners =
      (outputs.filter fun o => c.passes o.source).map Output.path := by
  induction h with
  | nil => rfl
  | @cons o owner outputs owners hfirst _ ih =>
    unfold directPaths at ih ⊢
    rcases hfirst with ⟨hpasses, rfl⟩ | ⟨hpasses, u, -, rfl⟩
    · simp only [List.map_cons, List.zip_cons_cons, List.filter_cons, hpasses, decide_true, if_true,
        ih]
    · simp only [List.map_cons, List.zip_cons_cons, List.filter_cons, hpasses, reduceCtorEq,
        decide_false, Bool.false_eq_true, if_false, ih]

/-- The units of the other outputs. -/
theorem owns_of_fits {outputs : List Output} {owners : List Owner}
    (h : List.Forall₂ c.Fits outputs owners) :
    List.Forall₂ (fun o u => c.Owns u o.source) (outputs.filter fun o => !c.passes o.source)
      (owners.filterMap Owner.unit?) := by
  induction h with
  | nil => exact .nil
  | @cons o owner outputs owners hfirst _ ih =>
    rcases hfirst with ⟨hpasses, rfl⟩ | ⟨hpasses, u, howns, rfl⟩
    · rw [List.filter_cons_of_neg (by simp [hpasses])]
      exact ih
    · rw [List.filter_cons_of_pos (by simp [hpasses])]
      exact .cons howns ih

/-- **Every batch of outputs is classified**, in whatever order and however often they come. Those
whose source is an extra file or a test of its unit are written through, and the units that hold the
sources of the others are dirty, each once and in order of first occurrence. -/
theorem classify_outputs (h : c.Watches disk extra) {names : List String}
    (hnames : Compile.rootNames disk c.units extra = .ok names) {outputs : List Output}
    (houtputs : ∀ o ∈ outputs, o.source ∈ names) :
    ∃ owners : List BuildUnit,
      List.Forall₂ (fun o u => c.Owns u o.source)
        (outputs.filter fun o => !c.passes o.source) owners ∧
      c.classify (outputs.map Output.path) =
        .ok ((outputs.filter fun o => c.passes o.source).map Output.path, owners.eraseDups) := by
  -- each output has an owner by itself; the lists are then put together
  obtain ⟨owners, howners⟩ : ∃ owners, List.Forall₂
      (fun o owner => c.owner o.path = .ok owner ∧ c.Fits o owner) outputs owners := by
    refine exists_forall₂ fun o ho => ?_
    exact h.owner_path hnames (houtputs o ho)
  have hfits : List.Forall₂ c.Fits outputs owners := howners.imp fun _ _ hboth => hboth.2
  have htraversal : (outputs.map Output.path).mapM c.owner = .ok owners :=
    mapM_eq_ok_iff.mpr (List.forall₂_map_left_iff.mpr (howners.imp fun _ _ hboth => hboth.1))
  refine ⟨owners.filterMap Owner.unit?, owns_of_fits hfits, ?_⟩
  unfold classify
  rw [htraversal]
  show Except.ok (directPaths _ owners, dirtyUnits owners) = _
  rw [directPaths_of_fits hfits, dirtyUnits_eq]

/-! ## A unit with a test, and an extra file -/

/-- A unit with one source and one test, and a file beside it. -/
def oneUnitDisk : Disk where
  entries := [(["w"], .directory), (["w", "u"], .directory), (["w", "u", "src"], .directory),
    (["w", "u", "test"], .directory),
    (["w", "u", "package.json"], .file (Text.Utf8.encode "\x7b\"name\":\"u\"\x7d")),
    (["w", "u", "src", "index.ts"], .file []), (["w", "u", "test", "a.ts"], .file []),
    (["w", "x.ts"], .file [])]
  cwd := []

/-- The unit on this disk. -/
def oneUnit : BuildUnit where
  entry := .ofLocation ["w", "u", "src", "index.ts"]
  root := .ofLocation ["w", "u"]
  sourceDir := .ofLocation ["w", "u", "src"]
  testDir? := some (.ofLocation ["w", "u", "test"])
  tests := [.ofLocation ["w", "u", "test", "a.ts"]]
  manifest := ⟨"u", []⟩
  needsGrammar := false

/-- A watch over this unit and the file beside it. -/
def oneUnitWatch : Coordinator where
  units := [oneUnit]
  bundler := ⟨[oneUnit], ⟨false, false⟩, none, .engine "dts" []⟩
  extra := ["/w/x.ts"]

theorem load_oneUnit : BuildUnit.load oneUnitDisk oneUnit.entry = .ok oneUnit := by cbv

/-- The watch of the example has its unit loaded and its sources plainly named. -/
theorem watches_oneUnitWatch : oneUnitWatch.Watches oneUnitDisk [.ofLocation ["w", "x.ts"]] where
  registered := by decide
  loaded := by
    intro u hu
    rw [List.mem_singleton.mp hu]
    exact ⟨oneUnitDisk, _, load_oneUnit⟩
  roots := by decide
  dirs := by decide
  names := by
    have hsources : oneUnitDisk.list (.ofLocation ["w", "u", "src"]) = .ok ["index.ts"] := by cbv
    have htests : oneUnitDisk.list (.ofLocation ["w", "u", "test"]) = .ok ["a.ts"] := by cbv
    intro u hu dir hdir names hnames
    rw [List.mem_singleton.mp hu] at hdir
    rcases List.mem_cons.mp hdir with rfl | htest
    · rw [← Except.ok.inj (hsources.symm.trans hnames)]
      decide
    · rw [List.mem_singleton.mp htest] at hnames
      rw [← Except.ok.inj (htests.symm.trans hnames)]
      decide
  extras := by cbv
  extraSources := by decide

/-- Its root names: a source, a test and an extra source. -/
theorem rootNames_oneUnitWatch :
    Compile.rootNames oneUnitDisk oneUnitWatch.units [.ofLocation ["w", "x.ts"]] =
      .ok ["/w/u/src/index.ts", "/w/u/test/a.ts", "/w/x.ts"] := by
  have hsources : sourceFiles oneUnitDisk (.ofLocation ["w", "u", "src"]) =
      .ok [.ofLocation ["w", "u", "src", "index.ts"]] := by cbv
  have htests : sourceFiles oneUnitDisk (.ofLocation ["w", "u", "test"]) =
      .ok [.ofLocation ["w", "u", "test", "a.ts"]] := by cbv
  have hdirs : Compile.unitDirs oneUnitWatch.units =
      [.ofLocation ["w", "u", "src"], .ofLocation ["w", "u", "test"]] := rfl
  unfold Compile.rootNames
  rw [watches_oneUnitWatch.extras, hdirs]
  simp only [List.mapM_cons, hsources, htests]
  decide +kernel

/-- Some outputs of its program. -/
def outputsOfEachKind : List Output :=
  [⟨"/w/x.ts", .code⟩, ⟨"/w/u/src/index.ts", .types⟩, ⟨"/w/u/test/a.ts", .code⟩,
    ⟨"/w/u/src/index.ts", .code⟩, ⟨"/w/x.ts", .code⟩]

/-- The outputs of the test and of the extra file go through; those of the source make the unit
dirty, once. -/
theorem classify_outputs_ofEachKind :
    oneUnitWatch.Watches oneUnitDisk [.ofLocation ["w", "x.ts"]] ∧
      Compile.rootNames oneUnitDisk oneUnitWatch.units [.ofLocation ["w", "x.ts"]] =
        .ok ["/w/u/src/index.ts", "/w/u/test/a.ts", "/w/x.ts"] ∧
      (∀ o ∈ outputsOfEachKind, o.source ∈ ["/w/u/src/index.ts", "/w/u/test/a.ts", "/w/x.ts"]) ∧
      ∃ owners, List.Forall₂ (fun o u => oneUnitWatch.Owns u (Output.source o))
          [⟨"/w/u/src/index.ts", .types⟩, ⟨"/w/u/src/index.ts", .code⟩] owners ∧
        oneUnitWatch.classify ["/w/x.js", "/w/u/src/index.d.ts", "/w/u/test/a.js", "/w/u/src/index.js",
          "/w/x.js"] = .ok (["/w/x.js", "/w/u/test/a.js", "/w/x.js"], owners.eraseDups) := by
  have houtputs : ∀ o ∈ outputsOfEachKind,
      o.source ∈ ["/w/u/src/index.ts", "/w/u/test/a.ts", "/w/x.ts"] := by decide
  have hpaths : outputsOfEachKind.map Output.path = ["/w/x.js", "/w/u/src/index.d.ts",
    "/w/u/test/a.js",
      "/w/u/src/index.js", "/w/x.js"] := by decide +kernel
  have hdirect : (outputsOfEachKind.filter fun o => oneUnitWatch.passes o.source).map Output.path =
      ["/w/x.js", "/w/u/test/a.js", "/w/x.js"] := by decide +kernel
  -- only the two outputs of the same source make their unit dirty
  have hothers : (outputsOfEachKind.filter fun o => !oneUnitWatch.passes o.source) =
      [⟨"/w/u/src/index.ts", .types⟩, ⟨"/w/u/src/index.ts", .code⟩] := by decide +kernel
  obtain ⟨owners, howners, hclassify⟩ :=
    classify_outputs watches_oneUnitWatch rootNames_oneUnitWatch houtputs
  rw [hothers] at howners
  rw [hpaths, hdirect] at hclassify
  exact ⟨watches_oneUnitWatch, rootNames_oneUnitWatch, houtputs, owners, howners, hclassify⟩

end Coordinator

end Watch

end Packwright
