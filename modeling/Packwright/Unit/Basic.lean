import Packwright.Dictionary
import Packwright.Path.File

/-!
# Build units

A unit is a package that is compiled and bundled on its own. It is known by its entry file; the
entry stands in the source directory, and the source directory in the root, next to the manifest
and perhaps a directory of tests.

* `BuildUnit.dirs` are the directories whose sources belong to a unit.
* `Manifest.Error` lists what can be wrong with a manifest, each with its message.
-/

namespace Packwright

/-- What the build needs to know of a package: its name and its declared dependencies. -/
structure Manifest where
  name : String
  dependencies : Dictionary String String
  deriving Repr, DecidableEq, Inhabited

/-- What can be wrong with a manifest; the path of the root or of the manifest is named. -/
inductive Manifest.Error where
  | missing (root : String)
  | invalid (path : String) (cause : String)
  | notAnObject (path : String)
  | noName (path : String)
  | badDependencies (path : String)
  deriving Repr, DecidableEq

def Manifest.fileName : String := "package.json"

def Manifest.Error.message : Manifest.Error → String
  | missing root => s!"No {Manifest.fileName} found in {root}"
  | invalid path cause => s!"Invalid JSON in {path}: {cause}"
  | notAnObject path => s!"{path} must contain a JSON object."
  | noName path => s!"{path} must declare a non-empty 'name'."
  | badDependencies path => s!"{path} field 'dependencies' must be an object."

/-- A build unit. -/
structure BuildUnit where
  entry : FilePath
  root : FilePath
  sourceDir : FilePath
  testDir? : Option FilePath
  tests : List FilePath
  manifest : Manifest
  needsGrammar : Bool
  deriving Repr, DecidableEq, Inhabited

namespace BuildUnit

def dirs (u : BuildUnit) : List FilePath :=
  u.sourceDir :: u.testDir?.toList

def label (u : BuildUnit) : String :=
  u.root.name

def distDir (u : BuildUnit) : FilePath :=
  u.root.child "dist"

def entryPath (u : BuildUnit) : String :=
  Path.normalize u.entry.toString

def testPaths (u : BuildUnit) : List String :=
  u.tests.map fun p => Path.normalize p.toString

end BuildUnit

end Packwright
