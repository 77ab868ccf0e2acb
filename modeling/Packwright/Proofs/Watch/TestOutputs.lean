import Packwright.Proofs.Watch.Classification
import Packwright.Proofs.Watch.Cycle

/-!
# The outputs of tests

Compiled tests reach the disk in two ways. A build that runs once goes through the tests of its units
and writes what each was compiled to next to it, under the name of the test with another suffix. A
watch is handed the paths of outputs and writes each one where it says.

* `copyUnits_performs` says what the first way writes, `Watches.mem_files_iff` what the second does.
* `copies_eq_outputs_iff`: both write the same, unless a test is named by its ending alone. Such a
  name has no suffix that could be exchanged.
-/

namespace Packwright

open Packwright.Traversal

/-- A unit as it was found on a disk, when there were only plain names in its directories. -/
def BuildUnit.PlainlyFound (u : BuildUnit) : Prop :=
  ∃ disk entry, BuildUnit.load disk entry = .ok u ∧
    ∀ dir ∈ u.dirs, ∀ names, disk.list dir = .ok names → ∀ name ∈ names, FilePath.IsPlainName name

namespace Watch

/-! ## Exchanging the suffix of a source -/

/-- A name with an ending keeps what stands in front of it, if that is anything. -/
theorem stem_append_sourceExtension (base : List Char) :
    FilePath.stem (base ++ Path.sourceExtension) =
      if base = [] then Path.sourceExtension else base := by
  have hsuffix : (((base ++ Path.sourceExtension).reverse.takeWhile (· ≠ '.')).reverse) =
      ['t', 's'] := by
    rw [List.reverse_append]
    rfl
  have hlength : (base ++ Path.sourceExtension).length - ['t', 's'].length - 1 = base.length := by
    rw [List.length_append]
    rfl
  unfold FilePath.stem
  simp only [hsuffix, hlength, List.take_left]
  cases base <;> rfl

/-- The path of a copy: the name with its extension replaced, or the whole name if it is nothing but
the extension. -/
theorem withSuffix_child (dir : FilePath) {name : String} {base : List Char}
    (hname : Path.IsName name.toList) (hbase : name.toList = base ++ Path.sourceExtension) :
    (dir.child name).withSuffix ".js" = ⟨dir.anchor, dir.parts ++ [String.ofList
      ((if base = [] then Path.sourceExtension else base) ++ Path.moduleExtension)]⟩ := by
  rw [FilePath.child_name dir hname]
  unfold FilePath.withSuffix FilePath.name
  rw [List.getLast?_concat, List.dropLast_concat]
  dsimp only [Option.getD]
  rw [hbase, stem_append_sourceExtension]
  simp [String.ofList_append]
  rfl

/-! ## Writing the copies -/

/-- The tests among some files that have been compiled, with what they were compiled to. -/
def compiledTests (store : Store) (tests : List FilePath) : List (FilePath × String) :=
  tests.filterMap fun t =>
    (store.read (Path.compiledPath t.toString ".js")).map fun text => (t, text)

-- the file that a build that runs once makes of a compiled test
def copyOf (f : FilePath × String) : String × String :=
  ((f.1.withSuffix ".js").toString, f.2)

-- the output of a test, which a watch writes as it is
def outputOf (f : FilePath × String) : String × String :=
  (Path.compiledPath f.1.toString ".js", f.2)

/-- Copies the tests of some units in turn; yields the paths written. -/
def copyUnits : List BuildUnit → Job (List FilePath)
  | [] => pure []
  | u :: rest => do
    let first ← Bundler.copyTests u
    let others ← copyUnits rest
    pure (first ++ others)

/-- Copying the tests of two lists is copying the first and then the second. -/
theorem copyAll_append (first second : List FilePath) :
    Bundler.copyAll (first ++ second) = (do
      let paths ← Bundler.copyAll first
      let others ← Bundler.copyAll second
      pure (paths ++ others)) := by
  induction first with
  | nil => simp [Bundler.copyAll]
  | cons t rest ih =>
    rw [List.cons_append, Bundler.copyAll, Bundler.copyAll, ih]
    simp only [bind_assoc, pure_bind, List.append_assoc]

/-- So copying unit by unit is copying all the tests in one list. -/
theorem copyUnits_eq (units : List BuildUnit) :
    copyUnits units = Bundler.copyAll (units.flatMap BuildUnit.tests) := by
  induction units with
  | nil => rfl
  | cons u rest ih =>
    rw [copyUnits, ih, List.flatMap_cons, copyAll_append]
    rfl

/-- A job does nothing but some deeds. -/
def Performs {σ α : Type} (engines : Job.Engines σ) (b : Bundler) (job : Job α) (deeds : List Deed)
    (s : Session × σ) : Prop :=
  ∃ value ended s', Carries engines b deeds s ended s' ∧
    Job.run engines job s = (ended.map fun _ => value, s')

section Copying

variable {σ : Type} (engines : Job.Engines σ) (b : Bundler)

theorem copyTest_carries {t : FilePath} (h : (t.withSuffix ".js").Plain) (s : Session × σ) :
    ∃ ended s', Carries engines b
        (((compiledTests s.1.store [t]).map copyOf).map fun f => .write f.1 f.2) s ended s' ∧
      s'.1.store = s.1.store ∧
      Job.run engines (Bundler.copyTest t) s =
        (ended.map fun _ => (compiledTests s.1.store [t]).map fun f => f.1.withSuffix ".js", s') := by
  have hsession : Job.run engines Job.session s = (.ok s.1, s) := rfl
  unfold Bundler.copyTest compiledTests
  rw [Job.run_bind_of_ok hsession]
  cases hread : s.1.store.read (Path.compiledPath t.toString ".js") with
  | none => exact ⟨.ok (), s, by simpa [hread] using Carries.done s, rfl, by simp [hread]; rfl⟩
  | some text =>
    -- the one deed is the write to the path of the copy
    have hown : Deed.own? (.write (t.withSuffix ".js").toString text) =
        some (Job.writeText (t.withSuffix ".js") text) := by
      show some (Job.writeText (.ofString (t.withSuffix ".js").toString) text) = _
      rw [FilePath.ofString_toString h]
    have hfound : [t].filterMap (fun t =>
        (s.1.store.read (Path.compiledPath t.toString ".js")).map fun text => (t, text)) =
        [(t, text)] := by simp [hread]
    rw [hfound]
    exact ⟨_, _, carries_own hown s,
      congrArg Feed.store (Job.feed_run_writeText engines (t.withSuffix ".js") text s),
      Job.run_bind_pure _⟩

/-- Copying writes the compiled tests one after the other, until a write fails. -/
theorem copyAll_carries {tests : List FilePath} (h : ∀ t ∈ tests, (t.withSuffix ".js").Plain)
    (s : Session × σ) :
    ∃ ended s', Carries engines b
        (((compiledTests s.1.store tests).map copyOf).map fun f => .write f.1 f.2) s ended s' ∧
      Job.run engines (Bundler.copyAll tests) s =
        (ended.map fun _ => (compiledTests s.1.store tests).map fun f => f.1.withSuffix ".js", s') := by
  induction tests generalizing s with
  | nil => exact ⟨.ok (), s, .done s, rfl⟩
  | cons t rest ih =>
    obtain ⟨hplain, hrest⟩ := List.forall_mem_cons.mp h
    obtain ⟨ended, m, hfirst, hstore, hrun⟩ := copyTest_carries engines b hplain s
    -- the store is still the one that the first test has seen
    have hcut : compiledTests s.1.store (t :: rest) =
        compiledTests s.1.store [t] ++ compiledTests s.1.store rest :=
      List.filterMap_append (l := [t])
    rw [Bundler.copyAll, hcut, List.map_append, List.map_append, List.map_append]
    cases ended with
    | error e => exact ⟨.error e, m, hfirst.append_of_error _, Job.run_bind_of_error hrun _⟩
    | ok _ =>
      obtain ⟨ended, s', hothers, hrunOthers⟩ := ih hrest m
      rw [hstore] at hothers hrunOthers
      refine ⟨ended, s', hfirst.append hothers, ?_⟩
      rw [Job.run_bind_of_ok hrun, Job.run_bind_pure, hrunOthers]
      cases ended <;> rfl

/-- **The copies of the tests are written**, and nothing else is done. -/
theorem copyUnits_performs {units : List BuildUnit}
    (h : ∀ t ∈ units.flatMap BuildUnit.tests, (t.withSuffix ".js").Plain) (s : Session × σ) :
    Performs engines b (copyUnits units)
      (((compiledTests s.1.store (units.flatMap BuildUnit.tests)).map copyOf).map
        fun f => .write f.1 f.2) s := by
  obtain ⟨ended, s', hcarries, hrun⟩ := copyAll_carries engines b h s
  rw [← copyUnits_eq] at hrun
  exact ⟨_, ended, s', hcarries, hrun⟩

end Copying

namespace Coordinator

variable {c : Coordinator} {disk : Disk} {names : List String} {u : BuildUnit} {dir : FilePath}
  {name : String}

/-! ## Where the copies go -/

/-- The copy of a source stands beside it. It is the output, unless the name of the source is an
ending alone; but in no case is its own name an ending alone. -/
theorem Stands.withSuffix_eq (h : Stands u dir name) :
    ∃ other, FilePath.IsPlainName other ∧ other ≠ ".js" ∧
      (dir.child name).withSuffix ".js" = dir.child other ∧
      (name ≠ ".ts" → Path.compiledPath (dir.child name).toString ".js" =
        (dir.child other).toString) := by
  obtain ⟨base, other, hbase, hother, hplain, hpath⟩ := h.exists_path_eq .code
  have hmoved := withSuffix_child dir h.plainName.1 hbase
  -- a test that is named by its extension alone keeps it before the new one
  by_cases hbare : base = []
  · refine ⟨".ts.js", by decide, by decide, ?_, fun hne => absurd ?_ hne⟩
    · rw [hmoved, hbare, FilePath.child_name dir (by decide)]
      rfl
    · rw [← String.toList_inj, hbase, hbare]
      rfl
  · have hname : other = String.ofList (base ++ Path.moduleExtension) := by
      rw [← String.toList_inj, hother, String.toList_ofList]
      rfl
    refine ⟨other, hplain, ?_, ?_, fun _ => ?_⟩
    · rintro rfl
      have hself : Path.moduleExtension = base ++ Path.moduleExtension := hother
      exact hbare (List.self_eq_append_left.mp hself)
    · rw [hmoved, if_neg hbare, FilePath.child_name dir hplain.1, hname]
    · rw [← h.virtual_eq]
      exact hpath

/-- The output of a source whose name is an ending alone. -/
theorem Stands.output_of_bare (h : Stands u dir name) (hbare : name = ".ts") :
    Path.compiledPath (dir.child name).toString ".js" = (dir.child ".js").toString := by
  obtain ⟨base, other, hbase, hother, -, hpath⟩ := h.exists_path_eq .code
  have hself : Path.sourceExtension = base ++ Path.sourceExtension := by rw [← hbase, hbare]; rfl
  have hempty : base = [] := List.self_eq_append_left.mp hself
  have hname : other = ".js" := by
    rw [← String.toList_inj, hother, hempty]
    rfl
  rw [hname] at hpath
  rw [← h.virtual_eq]
  exact hpath

/-- Every test of a watched unit stands in one of its directories. -/
theorem Watches.exists_stands_test {extra : List FilePath} (h : c.Watches disk extra)
    (hu : u ∈ c.units) (hfound : u.PlainlyFound) {t : FilePath} (ht : t ∈ u.tests) :
    ∃ dir name, Stands u dir name ∧ t = dir.child name := by
  obtain ⟨disk', entry, hload, hplain⟩ := hfound
  obtain ⟨dir, hdir, listed, hlisted, name, hname, hsource, rfl⟩ :=
    (BuildUnit.load_eq_ok_iff.mp hload).exists_of_mem_tests ht
  have hending : Path.sourceExtension <:+ name.toList :=
    List.isSuffixOf_iff_suffix.mp (Bool.and_eq_true_iff.mp hsource).1
  exact ⟨dir, name, ⟨hdir, h.dirs u hu dir hdir, hplain dir hdir listed hlisted name hname, hending⟩,
    rfl⟩

/-! ## What a watch writes -/

/-- The direct paths are those of the batch that pass through. -/
theorem mem_directPaths_iff {batch : Batch} {owners : List Owner}
    (h : List.Forall₂ (fun path o => c.owner path = .ok o) batch owners) {path : String} :
    path ∈ directPaths batch owners ↔ path ∈ batch ∧ c.owner path = .ok .passThrough := by
  induction h with
  | nil => simp [directPaths]
  | @cons first o batch owners hfirst _ ih =>
    have hcut : directPaths (first :: batch) (o :: owners) =
        if o = .passThrough then first :: directPaths batch owners else directPaths batch owners := by
      cases o <;> rfl
    rw [hcut]
    -- the owner of a path is fixed, so it does not matter where in the batch the path stands
    by_cases heq : path = first
    · subst heq
      cases o <;> simp [hfirst, ih]
    · cases o <;> simp [heq, ih]

/-- The same, of a batch that was classified. -/
theorem mem_direct_iff {batch : Batch} {direct : List String} {dirty : List BuildUnit}
    (h : c.classify batch = .ok (direct, dirty)) {path : String} :
    path ∈ direct ↔ path ∈ batch ∧ c.owner path = .ok .passThrough := by
  unfold classify at h
  obtain ⟨owners, howners, h⟩ := bind_eq_ok_iff.mp h
  have hdirect : directPaths batch owners = direct := congrArg Prod.fst (Except.ok.inj h)
  rw [← hdirect]
  exact mem_directPaths_iff (mapM_eq_ok_iff.mp howners)

/-- A source is written through if a unit holds it among its tests. -/
theorem passes_iff (hextra : c.extra = []) {source : String} :
    c.passes source = true ↔ ∃ u ∈ c.units, u.holds source = true ∧
      ∃ t ∈ u.tests, Compile.virtual t = source := by
  unfold passes BuildUnit.testPaths
  rw [hextra]
  simp [Compile.virtual]

/-- An output with the ending of a module is the module of its source. -/
theorem kind_of_isModule {o : Output} (hnormal : Path.normalize o.source = o.source)
    (hts : Path.sourceExtension <:+ o.source.toList)
    (hmodule : Path.moduleExtension.isSuffixOf o.path.toList = true) : o.kind = .code := by
  obtain ⟨source, kind⟩ := o
  cases kind with
  | code => rfl
  | types =>
    obtain ⟨stem, -, houtput⟩ := Path.exists_compiledPathChars hts
    have hpath : (Output.path ⟨source, .types⟩).toList = stem ++ Path.declarationExtension := by
      unfold Output.path Path.compiledPath
      rw [String.toList_ofList, houtput]
      rfl
    rw [hpath] at hmodule
    -- a declaration does not end as a module does
    have hsuffix := List.suffix_of_suffix_length_le (List.isSuffixOf_iff_suffix.mp hmodule)
      (List.suffix_append stem Path.declarationExtension) (by decide)
    exact absurd hsuffix (by decide)

/-- Compiled paths are made from normal ones, so the virtual path serves as well. -/
theorem compiledPath_virtual (t : FilePath) (extension : String) :
    Path.compiledPath (Compile.virtual t) extension = Path.compiledPath t.toString extension := by
  unfold Path.compiledPath Path.compiledPathChars Compile.virtual Path.normalize
  rw [String.toList_ofList, Path.normalizeChars_idem]

/-- A compiled test is a test whose output is stored. -/
theorem mem_compiledTests_iff {store : Store} {tests : List FilePath} {f : FilePath × String} :
    f ∈ compiledTests store tests ↔
      f.1 ∈ tests ∧ store.read (Path.compiledPath f.1.toString ".js") = some f.2 := by
  obtain ⟨t, text⟩ := f
  simp only [compiledTests, List.mem_filterMap, Option.map_eq_some_iff, Prod.mk.injEq]
  constructor
  · rintro ⟨t, ht, text, hread, rfl, rfl⟩
    exact ⟨ht, hread⟩
  · rintro ⟨ht, hread⟩
    exact ⟨t, ht, text, hread, rfl, rfl⟩

/-- An output that can be read is listed. -/
theorem Stands.mem_paths_of_read (h : Stands u dir name) {store : Store} {text : String}
    (hread : store.read (Path.compiledPath (dir.child name).toString ".js") = some text) :
    Path.compiledPath (dir.child name).toString ".js" ∈ store.paths := by
  obtain ⟨-, other, -, -, hother, hpath⟩ := h.exists_path_eq .code
  have houtput : Path.compiledPath (dir.child name).toString ".js" = (dir.child other).toString := by
    rw [← compiledPath_virtual]
    exact hpath
  have hnormal : Path.normalize (dir.child other).toString = (dir.child other).toString :=
    FilePath.virtual_eq (h.plain.child hother)
  rw [houtput] at hread ⊢
  unfold Store.read at hread
  rw [hnormal] at hread
  exact List.mem_map_of_mem (Dictionary.mem_of_get?_eq_some hread)

/-- The owner of an output is the pass-through exactly if its source passes. -/
theorem Watches.owner_eq_passThrough_iff {extra : List FilePath} (h : c.Watches disk extra)
    (hnames : Compile.rootNames disk c.units extra = .ok names) {o : Output} (ho : o.source ∈ names) :
    c.owner o.path = .ok .passThrough ↔ c.passes o.source = true := by
  obtain ⟨owner, howner, hfits⟩ := h.owner_path hnames ho
  rw [howner]
  rcases hfits with ⟨hpasses, rfl⟩ | ⟨hpasses, u, -, rfl⟩
  · simp [hpasses]
  · simp [hpasses]

section Agreement

variable (h : c.Watches disk []) (hfound : ∀ u ∈ c.units, u.PlainlyFound)
  (hnames : Compile.rootNames disk c.units [] = .ok names) {store : Store}
  (hstored : ∀ path ∈ store.paths, ∃ o : Output, o.source ∈ names ∧ path = o.path)
  {direct : List String} {dirty : List BuildUnit}
  (hclassify : c.classify store.paths = .ok (direct, dirty))

include h hnames hstored hclassify

/-- What is written through was compiled from a test. -/
theorem Watches.exists_test_of_written {path : String} {file : String × String}
    (hdirect : path ∈ direct) (hfile : fileThrough? store path = some file) :
    ∃ f ∈ compiledTests store (c.units.flatMap BuildUnit.tests), outputOf f = file := by
  have hextra : c.extra = [] := (Except.ok.inj h.extras).symm
  obtain ⟨hmem, howner⟩ := (mem_direct_iff hclassify).mp hdirect
  obtain ⟨o, ho, rfl⟩ := hstored path hmem
  obtain ⟨v, -, dir, name, hstands, hsource⟩ :=
    (h.exists_stands hnames ho).resolve_left (by simp [hextra])
  obtain ⟨u, hu, -, t, ht, hvirtual⟩ :=
    (passes_iff hextra).mp ((h.owner_eq_passThrough_iff hnames ho).mp howner)
  unfold fileThrough? at hfile
  split at hfile
  · rename_i hmodule
    obtain ⟨text, hread, rfl⟩ := Option.map_eq_some_iff.mp hfile
    -- only modules are written, and without extra sources what passes is a test
    have hkind : o.kind = .code := kind_of_isModule (hsource ▸ normalize_virtual _)
      (hsource ▸ hstands.isSource_virtual) hmodule
    have hpath : o.path = Path.compiledPath t.toString ".js" := by
      unfold Output.path
      rw [hkind, ← hvirtual, compiledPath_virtual]
      rfl
    rw [hpath] at hread ⊢
    exact ⟨(t, text), mem_compiledTests_iff.mpr ⟨List.mem_flatMap.mpr ⟨u, hu, ht⟩, hread⟩, rfl⟩
  · exact absurd hfile (by simp)

include hfound

/-- The output of a test is written through. -/
theorem Watches.written_of_test {f : FilePath × String}
    (hf : f ∈ compiledTests store (c.units.flatMap BuildUnit.tests)) :
    ∃ path ∈ direct, fileThrough? store path = some (outputOf f) := by
  obtain ⟨t, text⟩ := f
  obtain ⟨htests, hread⟩ := mem_compiledTests_iff.mp hf
  obtain ⟨u, hu, ht⟩ := List.mem_flatMap.mp htests
  obtain ⟨dir, name, hstands, rfl⟩ := h.exists_stands_test hu (hfound u hu) ht
  have hmem := hstands.mem_paths_of_read hread
  obtain ⟨o, ho, hpath⟩ := hstored _ hmem
  -- the stored path is also the output of the test, so its source is the test
  have hsource : o.source = Compile.virtual (dir.child name) := by
    rw [← h.sourcePathFor_path hnames ho, ← hpath, ← compiledPath_virtual]
    exact Output.sourcePathFor_path ⟨_, .code⟩ (normalize_virtual _) hstands.isSource_virtual
  have hpasses : c.passes o.source = true :=
    (passes_iff (Except.ok.inj h.extras).symm).mpr
      ⟨u, hu, hsource ▸ (h.owns hu hstands).2.1, _, ht, hsource.symm⟩
  have howner := (h.owner_eq_passThrough_iff hnames ho).mpr hpasses
  rw [← hpath] at howner
  obtain ⟨stem, -, houtput⟩ := Path.exists_compiledPathChars hstands.isSource_virtual
  have hmodule : Path.moduleExtension.isSuffixOf
      (Path.compiledPath (dir.child name).toString ".js").toList = true := by
    rw [← compiledPath_virtual]
    unfold Path.compiledPath
    rw [String.toList_ofList, houtput]
    exact List.isSuffixOf_iff_suffix.mpr (List.suffix_append _ _)
  refine ⟨_, (mem_direct_iff hclassify).mpr ⟨hmem, howner⟩, ?_⟩
  unfold fileThrough?
  rw [if_pos hmodule, hread]
  rfl

/-- **A watch writes the outputs of the tests** that have been compiled, if it is handed all that is
stored. -/
theorem Watches.mem_files_iff {file : String × String} :
    file ∈ direct.filterMap (fileThrough? store) ↔
      file ∈ (compiledTests store (c.units.flatMap BuildUnit.tests)).map outputOf := by
  rw [List.mem_filterMap, List.mem_map]
  constructor
  · rintro ⟨path, hdirect, hfile⟩
    exact h.exists_test_of_written hnames hstored hclassify hdirect hfile
  · rintro ⟨f, hf, rfl⟩
    exact h.written_of_test hfound hnames hstored hclassify hf

end Agreement

/-- The copies of some tests are their outputs, unless one of the tests is named by its ending alone:
its output is then none of the copies. -/
theorem mem_copies_iff_mem_outputs {files : List (FilePath × String)}
    (h : ∀ f ∈ files, ∃ u dir name, Stands u dir name ∧ f.1 = dir.child name) :
    (∀ file, file ∈ files.map copyOf ↔ file ∈ files.map outputOf) ↔
      ∀ f ∈ files, f.1.name ≠ ".ts" := by
  have hchild : ∀ {u dir name}, Stands u dir name → (dir.child name).name = name := by
    intro u dir name hstands
    rw [FilePath.child_name dir hstands.plainName.1]
    unfold FilePath.name
    rw [List.getLast?_concat]
    rfl
  constructor
  · -- the output is the ending alone, and no copy has such a name
    intro hsame f hf hbare
    obtain ⟨u, dir, name, hstands, hplace⟩ := h f hf
    rw [hplace, hchild hstands] at hbare
    obtain ⟨g, hg, heq⟩ := List.mem_map.mp ((hsame _).mpr (List.mem_map_of_mem hf))
    obtain ⟨v, dir', name', hstands', hplace'⟩ := h g hg
    obtain ⟨other, hother, hne, hcopy, -⟩ := hstands'.withSuffix_eq
    have hpath : (dir'.child other).toString = (dir.child ".js").toString := by
      rw [← hcopy, ← hplace', ← hstands.output_of_bare hbare, ← hplace]
      exact congrArg Prod.fst heq
    have hjs : FilePath.IsPlainName ".js" := by decide
    have hchildren := FilePath.eq_of_toString_eq (hstands'.plain.child hother)
      (hstands.plain.child hjs) hpath
    rw [FilePath.child_name _ hother.1, FilePath.child_name _ hjs.1, FilePath.mk.injEq] at hchildren
    exact hne (List.append_inj_right' hchildren.2 rfl |> List.singleton_inj.mp)
  · intro hnamed file
    have heq : files.map copyOf = files.map outputOf := by
      refine List.map_congr_left fun f hf => ?_
      obtain ⟨u, dir, name, hstands, hplace⟩ := h f hf
      have hname := hnamed f hf
      rw [hplace, hchild hstands] at hname
      obtain ⟨other, -, -, hcopy, houtput⟩ := hstands.withSuffix_eq
      unfold copyOf outputOf
      rw [hplace, hcopy, houtput hname]
    rw [heq]

/-- **Tests are written alike.** From a store of outputs of the program, a build that runs once
copies the tests of the units, and a watch that is handed all that is stored writes some outputs
through. Both write the same files with the same texts, exactly if no test that was compiled is named
by its ending alone. -/
theorem copies_eq_outputs_iff {σ : Type} (engines : Job.Engines σ) {s : Session × σ}
    (h : c.Watches disk []) (hfound : ∀ u ∈ c.units, u.PlainlyFound)
    (hnames : Compile.rootNames disk c.units [] = .ok names)
    (hstored : ∀ path ∈ s.1.store.paths, ∃ o : Output, o.source ∈ names ∧ path = o.path) :
    let tests := compiledTests s.1.store (c.units.flatMap BuildUnit.tests)
    Performs engines c.bundler (copyUnits c.units)
        ((tests.map copyOf).map fun f => .write f.1 f.2) s ∧
      ∃ direct attempts,
        let deeds := c.cycle s.1.store s.1.store.paths direct attempts
        Performs engines c.bundler (c.process s.1.store.paths) deeds s ∧
          ((∀ file, file ∈ tests.map copyOf ↔ file ∈ deeds.filterMap Deed.file?) ↔
            ∀ f ∈ tests, f.1.name ≠ ".ts") := by
  intro tests
  have hstands : ∀ t ∈ c.units.flatMap BuildUnit.tests,
      ∃ u dir name, Stands u dir name ∧ t = dir.child name := by
    intro t ht
    obtain ⟨u, hu, htest⟩ := List.mem_flatMap.mp ht
    exact ⟨u, h.exists_stands_test hu (hfound u hu) htest⟩
  have hplain : ∀ t ∈ c.units.flatMap BuildUnit.tests, (t.withSuffix ".js").Plain := by
    intro t ht
    obtain ⟨u, dir, name, hstands, rfl⟩ := hstands t ht
    obtain ⟨other, hother, -, hcopy, -⟩ := hstands.withSuffix_eq
    exact hcopy ▸ hstands.plain.child hother
  -- every stored path is the output of a root name, so none is fatal
  have howned : ∀ path ∈ s.1.store.paths, ∃ owner, c.owner path = .ok owner := by
    intro path hpath
    obtain ⟨o, ho, rfl⟩ := hstored path hpath
    obtain ⟨owner, howner, -⟩ := h.owner_path hnames ho
    exact ⟨owner, howner⟩
  obtain ⟨direct, dirty, hclassify⟩ := c.exists_classify howned
  obtain ⟨attempts, ended, s', -, hcarries, -, hrun⟩ := c.run_process engines hclassify s
  refine ⟨copyUnits_performs engines c.bundler hplain s, direct, attempts,
    ⟨_, ended, s', hcarries, hrun⟩, ?_⟩
  rw [files_cycle]
  -- both sides write the compiled tests; only their paths can differ
  simp only [h.mem_files_iff hfound hnames hstored hclassify]
  exact mem_copies_iff_mem_outputs fun f hf => hstands f.1 (mem_compiledTests_iff.mp hf).1

/-! ## A unit with one test -/

/-- A unit with one source and one test of this name. -/
def oneTestDisk (test : String) : Disk where
  entries := [(["w"], .directory), (["w", "u"], .directory), (["w", "u", "src"], .directory),
    (["w", "u", "test"], .directory),
    (["w", "u", "package.json"], .file (Text.Utf8.encode "\x7b\"name\":\"u\"\x7d")),
    (["w", "u", "src", "index.ts"], .file []), (["w", "u", "test", test], .file [])]
  cwd := []

/-- The unit on this disk. -/
def oneTestUnit (test : String) : BuildUnit where
  entry := .ofLocation ["w", "u", "src", "index.ts"]
  root := .ofLocation ["w", "u"]
  sourceDir := .ofLocation ["w", "u", "src"]
  testDir? := some (.ofLocation ["w", "u", "test"])
  tests := [.ofLocation ["w", "u", "test", test]]
  manifest := ⟨"u", []⟩
  needsGrammar := false

/-- A watch over this unit. -/
def oneTestWatch (test : String) : Coordinator where
  units := [oneTestUnit test]
  bundler := ⟨[oneTestUnit test], ⟨false, false⟩, none, .engine "dts" []⟩
  extra := []

/-- A session with one output of the test. -/
def oneTestSession (path : String) : Session :=
  (Session.ofDisk ⟨[], []⟩ "").write path "t();"

section OneTest

variable {test : String} (htest : test = "a.ts" ∨ test = ".ts")

include htest

/-- The unit of the example, loaded, for either name of its test. -/
theorem load_oneTestUnit :
    BuildUnit.load (oneTestDisk test) (oneTestUnit test).entry = .ok (oneTestUnit test) := by
  rcases htest with rfl | rfl <;> cbv

/-- Its directories hold plain names only. -/
theorem names_oneTestDisk : ∀ dir ∈ (oneTestUnit test).dirs, ∀ names,
    (oneTestDisk test).list dir = .ok names → ∀ name ∈ names, FilePath.IsPlainName name := by
  have hsources : (oneTestDisk test).list (.ofLocation ["w", "u", "src"]) = .ok ["index.ts"] := by
    rcases htest with rfl | rfl <;> cbv
  have htests : (oneTestDisk test).list (.ofLocation ["w", "u", "test"]) = .ok [test] := by
    rcases htest with rfl | rfl <;> cbv
  intro dir hdir names hnames name hname
  rcases List.mem_cons.mp hdir with rfl | hmem
  · rw [← Except.ok.inj (hsources.symm.trans hnames)] at hname
    rw [List.mem_singleton.mp hname]
    decide
  · rw [List.mem_singleton.mp hmem] at hnames
    rw [← Except.ok.inj (htests.symm.trans hnames)] at hname
    rw [List.mem_singleton.mp hname]
    rcases htest with rfl | rfl <;> decide

theorem plainlyFound_oneTestWatch : ∀ u ∈ (oneTestWatch test).units, u.PlainlyFound := by
  intro u hu
  rw [List.mem_singleton.mp hu]
  exact ⟨oneTestDisk test, _, load_oneTestUnit htest, names_oneTestDisk htest⟩

/-- The watch of the example has its unit loaded. -/
theorem watches_oneTestWatch : (oneTestWatch test).Watches (oneTestDisk test) [] where
  registered := by
    intro u hu
    exact hu
  loaded := by
    intro u hu
    rw [List.mem_singleton.mp hu]
    exact ⟨oneTestDisk test, _, load_oneTestUnit htest⟩
  roots := by
    intro u hu v hv _
    rw [List.mem_singleton.mp hu, List.mem_singleton.mp hv]
  dirs := by
    intro u hu
    rw [List.mem_singleton.mp hu]
    rcases htest with rfl | rfl <;> decide
  names := by
    intro u hu
    rw [List.mem_singleton.mp hu]
    exact names_oneTestDisk htest
  extras := rfl
  extraSources := by
    intro source hsource
    exact absurd hsource List.not_mem_nil

/-- Its root names: the source and the test. -/
theorem rootNames_oneTestWatch : Compile.rootNames (oneTestDisk test) (oneTestWatch test).units [] =
    .ok ["/w/u/src/index.ts", "/w/u/test/" ++ test] := by
  have hsources : sourceFiles (oneTestDisk test) (.ofLocation ["w", "u", "src"]) =
      .ok [.ofLocation ["w", "u", "src", "index.ts"]] := by
    rcases htest with rfl | rfl <;> cbv
  have htests : sourceFiles (oneTestDisk test) (.ofLocation ["w", "u", "test"]) =
      .ok [.ofLocation ["w", "u", "test", test]] := by
    rcases htest with rfl | rfl <;> cbv
  have hdirs : Compile.unitDirs (oneTestWatch test).units =
      [.ofLocation ["w", "u", "src"], .ofLocation ["w", "u", "test"]] := rfl
  unfold Compile.rootNames
  rw [(watches_oneTestWatch htest).extras, hdirs]
  simp only [List.mapM_cons, hsources, htests]
  rcases htest with rfl | rfl <;> decide +kernel

end OneTest

/-- The copy of a test with a name in front of its ending is its output. -/
theorem copies_eq_outputs_iff_namedTest :
    let s : Session × Unit := (oneTestSession "/w/u/test/a.js", ())
    (oneTestWatch "a.ts").Watches (oneTestDisk "a.ts") [] ∧
      (∀ u ∈ (oneTestWatch "a.ts").units, u.PlainlyFound) ∧
      Compile.rootNames (oneTestDisk "a.ts") (oneTestWatch "a.ts").units [] =
        .ok ["/w/u/src/index.ts", "/w/u/test/a.ts"] ∧
      (∀ path ∈ s.1.store.paths, ∃ o : Output, o.source ∈ ["/w/u/src/index.ts", "/w/u/test/a.ts"] ∧
        path = o.path) ∧
      Performs blandEngines (oneTestWatch "a.ts").bundler (copyUnits (oneTestWatch "a.ts").units)
        [.write "/w/u/test/a.js" "t();"] s ∧
      ∃ direct attempts,
        let deeds := (oneTestWatch "a.ts").cycle s.1.store ["/w/u/test/a.js"] direct attempts
        Performs blandEngines (oneTestWatch "a.ts").bundler
            ((oneTestWatch "a.ts").process ["/w/u/test/a.js"])
            deeds s ∧
          ∀ file, file ∈ [("/w/u/test/a.js", "t();")] ↔ file ∈ deeds.filterMap Deed.file? := by
  intro s
  have htest : "a.ts" = "a.ts" ∨ "a.ts" = ".ts" := Or.inl rfl
  have hpaths : s.1.store.paths = ["/w/u/test/a.js"] := by decide +kernel
  have hstored : ∀ path ∈ s.1.store.paths, ∃ o : Output,
      o.source ∈ ["/w/u/src/index.ts", "/w/u/test/a.ts"] ∧ path = o.path := by
    rw [hpaths]
    intro path hpath
    rw [List.mem_singleton.mp hpath]
    exact ⟨⟨"/w/u/test/a.ts", .code⟩, by decide, by decide +kernel⟩
  have htests : compiledTests s.1.store ((oneTestWatch "a.ts").units.flatMap BuildUnit.tests) =
      [(.ofLocation ["w", "u", "test", "a.ts"], "t();")] := by decide +kernel
  have hcopies : [(FilePath.ofLocation ["w", "u", "test", "a.ts"], "t();")].map copyOf =
      [("/w/u/test/a.js", "t();")] := by decide +kernel
  obtain ⟨hcopied, direct, attempts, hprocessed, hsame⟩ := copies_eq_outputs_iff blandEngines
    (s := s) (watches_oneTestWatch htest) (plainlyFound_oneTestWatch htest)
    (rootNames_oneTestWatch htest) hstored
  rw [htests, hcopies] at hcopied hsame
  rw [hpaths] at hprocessed hsame
  exact ⟨watches_oneTestWatch htest, plainlyFound_oneTestWatch htest, rootNames_oneTestWatch htest,
    hstored,
    hcopied, direct, attempts, hprocessed, hsame.mpr (by decide)⟩

/-- **A test that is named by its ending alone** is copied to another file than the one its output
is written to. -/
theorem exists_copy_elsewhere :
    let s : Session × Unit := (oneTestSession "/w/u/test/.js", ())
    (oneTestWatch ".ts").Watches (oneTestDisk ".ts") [] ∧
      (∀ u ∈ (oneTestWatch ".ts").units, u.PlainlyFound) ∧
      Compile.rootNames (oneTestDisk ".ts") (oneTestWatch ".ts").units [] =
        .ok ["/w/u/src/index.ts", "/w/u/test/.ts"] ∧
      s.1.store.paths = ["/w/u/test/.js"] ∧ "/w/u/test/.js" = Output.path ⟨"/w/u/test/.ts", .code⟩ ∧
      Performs blandEngines (oneTestWatch ".ts").bundler (copyUnits (oneTestWatch ".ts").units)
        [.write "/w/u/test/.ts.js" "t();"] s ∧
      ∃ deeds, Performs blandEngines (oneTestWatch ".ts").bundler
          ((oneTestWatch ".ts").process s.1.store.paths) deeds s ∧
        deeds.filterMap Deed.file? = [("/w/u/test/.js", "t();")] := by
  intro s
  have htest : ".ts" = "a.ts" ∨ ".ts" = ".ts" := Or.inr rfl
  have hpaths : s.1.store.paths = ["/w/u/test/.js"] := by decide +kernel
  have hplain : ∀ t ∈ (oneTestWatch ".ts").units.flatMap BuildUnit.tests,
      (t.withSuffix ".js").Plain := by
    decide +kernel
  have hcopies :
      (compiledTests s.1.store ((oneTestWatch ".ts").units.flatMap BuildUnit.tests)).map copyOf =
      [("/w/u/test/.ts.js", "t();")] := by decide +kernel
  have hclassify : ((oneTestWatch ".ts").classify s.1.store.paths).toOption =
      some (["/w/u/test/.js"], []) := by decide +kernel
  have hfiles : ["/w/u/test/.js"].filterMap (fileThrough? s.1.store) =
      [("/w/u/test/.js", "t();")] := by decide +kernel
  have hcopied := copyUnits_performs blandEngines (oneTestWatch ".ts").bundler hplain s
  rw [hcopies] at hcopied
  obtain ⟨attempts, ended, s', -, hcarries, -, hrun⟩ :=
    (oneTestWatch ".ts").run_process blandEngines (toOption_eq_some_iff.mp hclassify) s
  refine ⟨watches_oneTestWatch htest, plainlyFound_oneTestWatch htest, rootNames_oneTestWatch htest,
    hpaths,
    by decide +kernel, hcopied, _, ⟨_, ended, s', hcarries, hrun⟩, ?_⟩
  rw [files_cycle, hfiles]

-- a backslash in a name is a slash in a virtual path, so that the output is nobody's
example : ((oneTestWatch "a\\b.ts").classify ["/w/u/test/a/b.js"]).toOption = none := by
  decide +kernel

end Coordinator

end Watch

end Packwright
