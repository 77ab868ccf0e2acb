import Packwright.Compile.Request
import Packwright.Unit.Registry

/-!
# The program that a build compiles

The files and options of one compilation of several units.

* `rootNames` lists every source in the directories of the units and then the extra files, each
  path once, in order of first occurrence.
* `includeGlobs` describes the same files by patterns.
* `compilerOptions` maps the name of every unit to its entry, so that units find each other.
-/

namespace Packwright.Compile

def unitDirs (units : List BuildUnit) : List FilePath :=
  units.flatMap BuildUnit.dirs

def virtual (p : FilePath) : String :=
  Path.normalize p.toString

def extraPaths (disk : Disk) (extra : List FilePath) : Except Disk.ResolveError (List String) :=
  extra.mapM fun p => (disk.resolve p).map virtual

def firsts (names : List String) : List String :=
  names.foldl (fun kept n => if kept.contains n then kept else kept ++ [n]) []

/-- The files that are compiled. -/
def rootNames (disk : Disk) (units : List BuildUnit) (extra : List FilePath) :
    Except Failure (List String) := do
  let sources ← ((unitDirs units).mapM fun d => sourceFiles disk d).mapError .disk
  let extra ← (extraPaths disk extra).mapError .unresolved
  pure (firsts (sources.flatten.map virtual ++ extra))

/-- Patterns for the files that are compiled. -/
def includeGlobs (disk : Disk) (units : List BuildUnit) (extra : List FilePath) :
    Except Failure (List String) := do
  let extra ← (extraPaths disk extra).mapError .unresolved
  pure ((unitDirs units).map (fun d => virtual d ++ "/*.ts") ++ extra)

/-- The options of the compiler. -/
def compilerOptions (units : List BuildUnit) (language : LanguageLevel) (outputs : OutputChoice) :
    Value.Fields :=
  let paths := Dictionary.ofPairs (units.map fun u => (u.manifest.name, Value.texts [u.entryPath]))
  [("paths", .table paths),
    ("lib", .texts language.lib),
    ("types", .texts language.types),
    ("stripInternal", .bool true),
    ("noUnusedLocals", .bool true),
    ("strict", .bool language.strict),
    ("target", .text language.target),
    ("module", .text language.module),
    ("newLine", .text "lf"),
    ("declaration", .bool true),
    ("declarationMap", .bool true),
    ("moduleResolution", .text "node")] ++
    if outputs.sourceMaps then [("sourceMap", .bool true)] else []

/-- The request for the program of some units. -/
def request (disk : Disk) (config : Config) (units : List BuildUnit) (extra : List FilePath) :
    Except Failure CompileRequest := do
  let rootNames ← rootNames disk units extra
  let patterns ← includeGlobs disk units extra
  pure {
    rootNames := rootNames
    patterns := patterns
    options := compilerOptions units config.language config.outputs
    mangler := .ofDirs ((unitDirs units).map FilePath.toString) config.docBaseUrl }

end Packwright.Compile
