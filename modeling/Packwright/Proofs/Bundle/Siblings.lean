import Packwright.Bundle.Package
import Packwright.Proofs.Dictionary
import Packwright.Proofs.Path.Ending

/-!
# Units that import each other

A unit that imports another one of the same build by its name gets the other one's compiled entry.
Three things have to agree for that: the names that stay outside a bundle, the aliases of the names,
and the path of the compiled entry.

* `isExternal_sibling`: the name of another unit does not stay outside.
* `get?_aliases`: the name leads to the path of the entry without its ending.
* `candidate_eq_iff`: with an extension put behind it, that is the compiled entry exactly if the
  path without the ending is a path in normal form and has no other extension (`HasPlainEntry`).
* `exists_unresolved_sibling`: an entry whose name has one more dot is not found.
-/

namespace Packwright

def BuildUnit.entryStem (u : BuildUnit) : String :=
  Path.replaceSuffix u.entryPath ".ts" ""

/-- Whether the path of the entry can do without its ending: it is in normal form, and there is no
other extension in front of the ending. -/
def BuildUnit.HasPlainEntry (u : BuildUnit) : Prop :=
  Path.normalize u.entryStem = u.entryStem ∧ Path.hasExtension u.entryStem = false

namespace Bundler

variable {b : Bundler} {u v : BuildUnit}

/-- The name of another unit does not stay outside. -/
theorem isExternal_sibling (hv : v ∈ b.registry) (hother : v.entry ≠ u.entry) :
    Specifier.isExternal (b.siblings u) v.manifest.name = false := by
  refine Specifier.isExternal_eq_false_of_mem (List.mem_map.mpr ⟨v, ?_, rfl⟩)
  exact List.mem_filter.mpr ⟨hv, by simpa using hother⟩

/-- A request for modules, if it can be made, names the siblings of its unit. -/
theorem externals_of_moduleRequest {store : Store} {request : BundleRequest}
    (h : b.moduleRequest u store = .ok request) : request.externals = b.siblings u := by
  unfold moduleRequest at h
  cases hstored : store.has (entryOutput u ".js") with
  | false => simp [hstored, Bind.bind, Except.bind, throw, throwThe, MonadExceptOf.throw] at h
  | true =>
    cases hplugin : b.modulePlugin u with
    | error e => simp [hstored, hplugin, Bind.bind, Except.bind] at h
    | ok plugin =>
      simp only [hstored, hplugin, Bind.bind, Except.bind] at h
      rw [← Except.ok.inj h]

/-- A name leads to the entry of its unit, without the ending. -/
theorem get?_aliases (hnames : (b.registry.map fun w => w.manifest.name).Nodup)
    (hv : v ∈ b.registry) : b.aliases.get? v.manifest.name = some v.entryStem := by
  have hkeys : ((b.registry.map fun w =>
      (w.manifest.name, Path.replaceSuffix w.entryPath ".ts" "")).map Prod.fst).Nodup := by
    rw [List.map_map]
    exact hnames
  unfold aliases
  rw [Dictionary.ofPairs_of_nodup hkeys]
  exact Dictionary.get?_eq_some_of_mem hkeys (List.mem_map.mpr ⟨v, hv, rfl⟩)

/-- The compiled entry of a unit and its alias have the same stem. -/
theorem entryOutput_eq (hts : Path.sourceExtension <:+ v.entry.toString.toList)
    (extension : String) : entryOutput v extension = v.entryStem ++ extension := by
  obtain ⟨stem, hnormal, houtput⟩ := Path.exists_compiledPathChars hts
  have hstem : v.entryStem = String.ofList stem := by
    unfold BuildUnit.entryStem BuildUnit.entryPath Path.normalize Path.replaceSuffix
    rw [String.toList_ofList, hnormal, show ".ts".toList = Path.sourceExtension from rfl,
      Path.replaceSuffixChars_append]
    simp
  unfold entryOutput Path.compiledPath
  rw [houtput, hstem, String.ofList_append, String.ofList_toList]

/-- **What a name leads to is the compiled entry** exactly if the entry can do without its
ending. -/
theorem candidate_eq_iff (hnames : (b.registry.map fun w => w.manifest.name).Nodup)
    (hv : v ∈ b.registry) (hts : Path.sourceExtension <:+ v.entry.toString.toList)
    {extension : String} (hext : extension ≠ "") (delegate? : Option Plugin)
    (importer? : Option String) :
    VirtualOutput.candidate ⟨extension, delegate?, b.aliases⟩ v.manifest.name importer? =
      entryOutput v extension ↔ v.HasPlainEntry := by
  have hne : extension.toList ≠ [] := fun hnil => hext (by simpa using hnil)
  have hoff : v.entryStem ++ extension = String.ofList (v.entryStem.toList ++ extension.toList) := by
    simp
  unfold VirtualOutput.candidate BuildUnit.HasPlainEntry Path.normalize Path.hasExtension
  rw [entryOutput_eq hts, hoff, get?_aliases hnames hv, String.ofList_inj]
  dsimp only
  constructor
  · intro h
    split at h
    · -- without the extension behind it, a normal form is too short
      have hlen := Path.length_normalizeChars_le v.entryStem.toList
      rw [h, List.length_append] at hlen
      exact absurd (List.length_pos_iff.mpr hne) (by omega)
    · rename_i hplain
      have hstem := List.append_cancel_right h
      exact ⟨by rw [hstem, String.ofList_toList], by rw [← hstem]; simpa using hplain⟩
  · rintro ⟨hnormal, hplain⟩
    rw [Path.normalizeChars_toList hnormal, if_neg (by simp [hplain])]

/-- **A unit finds the compiled entries of its siblings.** The name of another unit stays outside
neither of the two bundles. It leads to the other's compiled entry, which the store holds, if the
path of that entry can do without its ending, whoever imports it and whoever is asked next;
otherwise it leads elsewhere, and there is no such answer unless somebody else gives it. What is
loaded from there is what was stored. -/
theorem sibling_resolves (hnames : (b.registry.map fun w => w.manifest.name).Nodup)
    (hv : v ∈ b.registry) (hother : v.entry ≠ u.entry)
    (hts : Path.sourceExtension <:+ v.entry.toString.toList) {extension : String}
    (hext : extension = ".js" ∨ extension = ".d.ts") (delegate? : Option Plugin)
    (importer? : Option String) {store : Store} {code : String}
    (hcode : store.read (entryOutput v extension) = some code) :
    (∀ request, b.moduleRequest u store = .ok request →
        Specifier.isExternal request.externals v.manifest.name = false) ∧
      Specifier.isExternal (b.declarationRequest u).externals v.manifest.name = false ∧
      (v.HasPlainEntry →
        VirtualOutput.resolve ⟨extension, delegate?, b.aliases⟩ store v.manifest.name importer? =
          some (entryOutput v extension)) ∧
      (¬ v.HasPlainEntry →
        VirtualOutput.resolve ⟨extension, none, b.aliases⟩ store v.manifest.name importer? ≠
          some (entryOutput v extension)) ∧
      VirtualOutput.load ⟨extension, delegate?, b.aliases⟩ store (entryOutput v extension) =
        some ⟨code, store.readMap (entryOutput v extension)⟩ := by
  have hne : extension ≠ "" := by rcases hext with rfl | rfl <;> decide
  have hcandidate := fun delegate? => candidate_eq_iff hnames hv hts hne delegate? importer?
  refine ⟨fun request hrequest => ?_, isExternal_sibling hv hother, fun hplain => ?_,
    fun hplain hresolve => ?_, ?_⟩
  · rw [externals_of_moduleRequest hrequest]
    exact isExternal_sibling hv hother
  · unfold VirtualOutput.resolve
    rw [(hcandidate delegate?).mpr hplain]
    -- the output of the entry is stored, so the candidate is what is resolved to
    have hhas : store.has (entryOutput v extension) = true := by
      unfold Store.has Dictionary.has
      rw [show store.files.get? _ = some code from hcode]
      rfl
    simp only [hhas, if_true]
  · unfold VirtualOutput.resolve at hresolve
    dsimp only at hresolve
    split at hresolve
    · exact hplain ((hcandidate none).mp (Option.some.inj hresolve))
    · exact absurd hresolve (by simp)
  · unfold VirtualOutput.load
    rw [hcode]

/-! ## Two units of one build -/

/-- A unit below `/w` with a name and an entry. -/
def unitNamed (name entryName : String) : BuildUnit where
  entry := .ofLocation ["w", name, "src", entryName]
  root := .ofLocation ["w", name]
  sourceDir := .ofLocation ["w", name, "src"]
  testDir? := none
  tests := []
  manifest := ⟨name, []⟩
  needsGrammar := false

/-- A build of two units, of which the second has an entry of this name. -/
def pairOf (entryName : String) : Bundler :=
  ⟨[unitNamed "u" "index.ts", unitNamed "v" entryName], ⟨false, false⟩, none, .engine "dts" []⟩

/-- An entry of an ordinary name in a store that holds both of its outputs. -/
theorem sibling_resolves_index :
    ((pairOf "index.ts").registry.map fun w => w.manifest.name).Nodup ∧
      unitNamed "v" "index.ts" ∈ (pairOf "index.ts").registry ∧
      (unitNamed "v" "index.ts").entry ≠ (unitNamed "u" "index.ts").entry ∧
      Path.sourceExtension <:+ (unitNamed "v" "index.ts").entry.toString.toList ∧
      (Store.empty.write "/w/v/src/index.d.ts" "export {};").read
        (entryOutput (unitNamed "v" "index.ts") ".d.ts") = some "export {};" ∧
      VirtualOutput.resolve ⟨".d.ts", none, (pairOf "index.ts").aliases⟩
          (Store.empty.write "/w/v/src/index.d.ts" "export {};") "v" (some "/w/u/src/index.d.ts") =
        some "/w/v/src/index.d.ts" ∧
      VirtualOutput.load ⟨".d.ts", none, (pairOf "index.ts").aliases⟩
          (Store.empty.write "/w/v/src/index.d.ts" "export {};") "/w/v/src/index.d.ts" =
        some ⟨"export {};", none⟩ := by
  have hnames : ((pairOf "index.ts").registry.map fun w => w.manifest.name).Nodup := by decide
  have hv : unitNamed "v" "index.ts" ∈ (pairOf "index.ts").registry := by decide
  have hother : (unitNamed "v" "index.ts").entry ≠ (unitNamed "u" "index.ts").entry := by decide
  have hts : Path.sourceExtension <:+ (unitNamed "v" "index.ts").entry.toString.toList := by decide
  have hcode : (Store.empty.write "/w/v/src/index.d.ts" "export {};").read
      (entryOutput (unitNamed "v" "index.ts") ".d.ts") = some "export {};" := by decide
  have hplain : (unitNamed "v" "index.ts").HasPlainEntry := ⟨by decide +kernel, by decide +kernel⟩
  have houtput : entryOutput (unitNamed "v" "index.ts") ".d.ts" = "/w/v/src/index.d.ts" := by decide
  obtain ⟨-, -, hresolve, -, hload⟩ := sibling_resolves hnames hv hother hts (Or.inr rfl) none
    (some "/w/u/src/index.d.ts") hcode
  have hmap : (Store.empty.write "/w/v/src/index.d.ts" "export {};").readMap
      "/w/v/src/index.d.ts" = none := by decide
  rw [houtput] at hresolve hload
  rw [hmap] at hload
  exact ⟨hnames, hv, hother, hts, hcode, hresolve hplain, hload⟩

/-- **An entry with one more dot in its name is not found**: without its ending, `index.core.ts` looks
as if it had an extension, so that none is put behind it. -/
theorem exists_unresolved_sibling :
    ∃ (b : Bundler) (u v : BuildUnit) (store : Store) (code : String),
      (b.registry.map fun w => w.manifest.name).Nodup ∧ u ∈ b.registry ∧ v ∈ b.registry ∧
      v.entry ≠ u.entry ∧ (∀ w ∈ b.registry, Path.sourceExtension <:+ w.entry.toString.toList) ∧
      store.read (entryOutput v ".js") = some code ∧
      Specifier.isExternal (b.siblings u) v.manifest.name = false ∧
      VirtualOutput.resolve ⟨".js", none, b.aliases⟩ store v.manifest.name
        (some (entryOutput u ".js")) = none :=
  ⟨pairOf "index.core.ts", unitNamed "u" "index.ts", unitNamed "v" "index.core.ts",
    Store.empty.write "/w/v/src/index.core.js" "export {};", "export {};", by decide, by decide,
    by decide, by decide, by decide, by decide, by decide, by decide⟩

end Bundler

end Packwright
