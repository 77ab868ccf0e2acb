import Packwright.Bundle.Emit
import Packwright.Unit.Registry

/-!
# Bundling a unit

Writes the bundles of a unit into its `dist` directory: one module in each of two formats, and one
declaration file.

* `aliases` and `externals` divide the units between them: inside a bundle the names of all units
  lead to their compiled entries, and the other units do not stay outside.
* `copyTests` writes the compiled tests of a unit beside their sources.
-/

namespace Packwright

/-- What bundling needs to know: the units, which outputs to write, and the plugins that live
inside the bundler. -/
structure Bundler where
  registry : Registry
  outputs : OutputChoice
  grammarPlugin? : Option Plugin
  declarationPlugin : Plugin
  deriving Inhabited

namespace Bundler

/-- The names of the units with the paths of their entries, without extension. -/
def aliases (b : Bundler) : Dictionary String String :=
  Dictionary.ofPairs (b.registry.map fun u =>
    (u.manifest.name, Path.replaceSuffix u.entryPath ".ts" ""))

def siblings (b : Bundler) (u : BuildUnit) : List String :=
  (b.registry.filter fun other => other.entry ≠ u.entry).map fun other => other.manifest.name

def entryOutput (u : BuildUnit) (extension : String) : String :=
  Path.compiledPath u.entry.toString extension

/-- The plugin that serves compiled modules to a unit. A unit with grammars needs the plugin that
compiles them. -/
def modulePlugin (b : Bundler) (u : BuildUnit) : Except BundleError Plugin :=
  if u.needsGrammar then
    match b.grammarPlugin? with
    | none => .error (.noGrammarPlugin u.label)
    | some grammar => .ok (VirtualOutput.toPlugin ⟨".js", some grammar, b.aliases⟩)
  else .ok (VirtualOutput.toPlugin ⟨".js", none, b.aliases⟩)

/-- The request for the module bundles of a unit. -/
def moduleRequest (b : Bundler) (u : BuildUnit) (store : Store) :
    Except BundleError BundleRequest := do
  let input := entryOutput u ".js"
  unless store.has input do throw (.noOutput u.label input)
  let plugin ← b.modulePlugin u
  pure ⟨u.label, input, b.siblings u, [plugin], []⟩

/-- The request for the declaration bundle of a unit. -/
def declarationRequest (b : Bundler) (u : BuildUnit) : BundleRequest where
  unit := u.label
  input := entryOutput u ".d.ts"
  externals := b.siblings u
  plugins := [VirtualOutput.toPlugin ⟨".d.ts", none, b.aliases⟩, b.declarationPlugin]
  muted := ["CIRCULAR_DEPENDENCY", "UNUSED_EXTERNAL_IMPORT"]

def esmOptions (b : Bundler) (u : BuildUnit) : OutputOptions :=
  ⟨.esm, u.distDir.child "index.js", b.outputs.sourceMaps, false⟩

def cjsOptions (b : Bundler) (u : BuildUnit) : OutputOptions :=
  ⟨.cjs, u.distDir.child "index.cjs", b.outputs.sourceMaps, true⟩

def declarationOptions (u : BuildUnit) : OutputOptions :=
  ⟨.esm, u.distDir.child "index.d.ts", false, true⟩

/-- Writes the bundles of a unit; yields the paths written. -/
def bundle (b : Bundler) (u : BuildUnit) : Job (List FilePath) := do
  let s ← Job.session
  let modules ← Job.lift ((b.moduleRequest u s.store).mapError .bundle)
  let build ← Job.request (.bundle modules)
  let esm ← Bundle.emit build modules (b.esmOptions u) (Bundle.annotating b.outputs)
  let cjs ← Bundle.emit build modules (b.cjsOptions u) Bundle.untouched
  let declarations := b.declarationRequest u
  let build ← Job.request (.bundle declarations)
  let types ← Bundle.emit build declarations (declarationOptions u) Bundle.untouched
  pure (esm ++ cjs ++ types)

/-- Writes the compiled form of a test, if there is one. -/
def copyTest (test : FilePath) : Job (List FilePath) := do
  let s ← Job.session
  match s.store.read (Path.compiledPath test.toString ".js") with
  | none => pure []
  | some content => do
    let target := test.withSuffix ".js"
    Job.writeText target content
    pure [target]

/-- Writes the compiled tests beside their sources; yields the paths written. -/
def copyAll : List FilePath → Job (List FilePath)
  | [] => pure []
  | test :: rest => do
    let first ← copyTest test
    let others ← copyAll rest
    pure (first ++ others)

/-- Writes the compiled tests of a unit beside their sources; yields the paths written. -/
def copyTests (u : BuildUnit) : Job (List FilePath) :=
  copyAll u.tests

end Bundler

end Packwright
