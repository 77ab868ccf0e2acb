import Packwright.Bundle.Package
import Packwright.Compile.Once

/-!
# Building once

Compiles some units together and then bundles each of them. The bundlings do not depend on each
other: when one fails, the others are still run, and the first failure is that of the build.

* `prepare` finds the units and compiles them; it yields one job for each unit, or none at all
  when the compiler has reported blocking errors.
* `run` runs a build with engines that answer at once.
-/

namespace Packwright.Build

/-- The plugins that live inside a bundler. -/
structure EnginePlugins where
  grammar? : Option Plugin
  declarations : Plugin
  deriving Inhabited

def EnginePlugins.builtIn : EnginePlugins :=
  ⟨some (.engine "lezer" []), .engine "dts" []⟩

/-- Bundles a unit, copies its tests, and records that. -/
def bundleUnit (b : Bundler) (u : BuildUnit) : Job Unit := do
  let bundles ← b.bundle u
  let tests ← Bundler.copyTests u
  Job.record "bundle" (some u.label) true none [("files", .int (bundles ++ tests).length)]

def findUnits (entries : List FilePath) : Job (Registry × List BuildUnit) := do
  let s ← Job.session
  let (registry, units) := Registry.getAll s.disk entries []
  pure (registry, ← Job.lift units)

/-- Compiles; yields the jobs that bundle the units, or nothing if there is no output. -/
def prepare (config : Config) (plugins : EnginePlugins) (entries : List FilePath) :
    Job (Option (List (Job Unit))) := do
  let (registry, units) ← findUnits entries
  let compiled ← Compile.once config units []
  let b : Bundler := ⟨registry, config.outputs, plugins.grammar?, plugins.declarations⟩
  pure (if compiled then some (units.map (bundleUnit b)) else none)

variable {σ : Type}

/-- Runs jobs in turn, each whether or not those before it fail; yields the first failure. -/
def runAll (engines : Job.Engines σ) :
    List (Job Unit) → Session × σ → Except Failure Unit × (Session × σ)
  | [], s => (.ok (), s)
  | job :: rest, s =>
    let (first, s) := Job.run engines job s
    let (others, s) := runAll engines rest s
    (match first with
      | .ok _ => others
      | .error e => .error e, s)

/-- Builds; yields whether the compiler has let the build go on. -/
def run (engines : Job.Engines σ) (config : Config) (plugins : EnginePlugins)
    (entries : List FilePath) (s : Session × σ) : Except Failure Bool × (Session × σ) :=
  match Job.run engines (prepare config plugins entries) s with
  | (.error e, s) => (.error e, s)
  | (.ok none, s) => (.ok false, s)
  | (.ok (some jobs), s) =>
    let (result, s) := runAll engines jobs s
    (result.map fun _ => true, s)

end Packwright.Build
