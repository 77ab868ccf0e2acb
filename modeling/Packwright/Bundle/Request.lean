import Packwright.Path.File
import Packwright.Plugin
import Packwright.SourceMap.Basic

/-!
# What the bundler is asked and answers

* `BundleRequest` names the module to start from, the packages that stay outside, the plugins, and
  what becomes of warnings.
* A bundled module graph is known by a text that the bundler chooses; `OutputOptions` says how to
  write it, and the bundler answers with artifacts.
-/

namespace Packwright

/-- The formats that a module graph can be written in. -/
inductive ModuleFormat where
  | esm
  | cjs
  | named (name : String)
  deriving Repr, DecidableEq, Inhabited

def ModuleFormat.name : ModuleFormat → String
  | esm => "esm"
  | cjs => "cjs"
  | named name => name

/-- A message of the bundler that does not stop it. -/
structure BundleWarning where
  code : String
  text : String
  deriving Repr, DecidableEq, Inhabited

/-- The module to bundle and what the bundler may ask about it. Warnings with a muted code are not
shown. -/
structure BundleRequest where
  unit : String
  input : String
  externals : List String
  plugins : List Plugin
  muted : List String
  deriving Inhabited

/-- How a module graph is to be written. -/
structure OutputOptions where
  format : ModuleFormat
  file : FilePath
  sourceMaps : Bool
  liveBindings : Bool
  deriving Repr, DecidableEq, Inhabited

/-- The source map of an artifact: its text, or a map that is still to be written. -/
inductive ArtifactMap where
  | written (document : String)
  | parsed (map : SourceMap)
  deriving Repr, Inhabited

def ArtifactMap.toText : ArtifactMap → Except SourceMap.Error String
  | written document => .ok document
  | parsed map => map.toText

/-- A file that the bundler has written. -/
structure Artifact where
  fileName : String
  code : String
  map? : Option ArtifactMap
  deriving Repr, Inhabited

end Packwright
