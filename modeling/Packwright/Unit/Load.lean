import Packwright.Failure
import Packwright.Unit.Basic

/-!
# Finding units on disk

Derives a unit from the layout around its entry file.

* `Manifest.ofValue` takes the name and the dependencies out of a document; dependencies whose
  version is not a text are left out, and the others are in ascending order of their names.
* `sourceFiles` lists the sources in a directory in ascending order of their names; declaration
  files do not count.
-/

namespace Packwright

open Packwright.Text

namespace Manifest

/-- The dependencies that a document declares. -/
def dependenciesOf (path : String) (v : Value) : Except Manifest.Error (Dictionary String String) :=
  match (v.field? "dependencies").getD (.table []) with
  | .table fields =>
    .ok ((fields.filterMap fun (k, v) => v.text?.map fun s => (k, s)).mergeSort
      fun p q => p.1 ≤ q.1)
  | _ => .error (.badDependencies path)

def ofValue (path : String) (v : Value) : Except Manifest.Error Manifest :=
  if !v.isTable then .error (.notAnObject path)
  else match v.field? "name" with
    | some (.text name) =>
      if name.isEmpty then .error (.noName path)
      else (dependenciesOf path v).map fun dependencies => ⟨name, dependencies⟩
    | _ => .error (.noName path)

def load (disk : Disk) (root : FilePath) : Except Failure Manifest :=
  let path := root.child fileName
  match disk.readText path with
  | .error (.disk cause) =>
    if cause.cause = .notFound then .error (.manifest (.missing root.toString))
    else .error (.disk cause)
  | .error (.undecodable cause) => .error (.undecodable cause)
  | .ok document =>
    match Json.read document with
    | .error (.tooManyDigits count) => .error (.tooManyDigits count)
    | .error cause => .error (.manifest (.invalid path.toString cause.message))
    | .ok v => (ofValue path.toString v).mapError .manifest

end Manifest

/-- Whether a name is that of a source. -/
def isSourceName (name : String) : Bool :=
  let name := name.toList
  Path.sourceExtension.isSuffixOf name && !".d.ts".toList.isSuffixOf name

/-- The sources in a directory in ascending order of their names. -/
def sourceFiles (disk : Disk) (dir : FilePath) : Except Disk.Error (List FilePath) := do
  let names ← disk.list dir
  let names := names.filter fun n => isSourceName n && disk.isFile (dir.child n)
  pure ((names.mergeSort fun a b => a ≤ b).map dir.child)

namespace BuildUnit

/-- The directory of tests in a root, if there is one. -/
def testDirOf? (disk : Disk) (root : FilePath) : Option FilePath :=
  let dir := root.child "test"
  if disk.isDirectory dir then some dir else none

/-- Whether a directory holds a grammar. -/
def hasGrammar (disk : Disk) (dir : FilePath) : Except Disk.Error Bool := do
  let names ← disk.list dir
  pure (names.any fun n => ".grammar".toList.isSuffixOf n.toList && disk.isFile (dir.child n))

def load (disk : Disk) (entry : FilePath) : Except Failure BuildUnit := do
  let entry ← (disk.resolve entry).mapError .unresolved
  let sourceDir := entry.parent
  let root := sourceDir.parent
  let testDir? := testDirOf? disk root
  let tests ← match testDir? with
    | none => .ok []
    | some dir => (sourceFiles disk dir).mapError .disk
  let needsGrammar ← (hasGrammar disk sourceDir).mapError .disk
  let manifest ← Manifest.load disk root
  pure ⟨entry, root, sourceDir, testDir?, tests, manifest, needsGrammar⟩

end BuildUnit

end Packwright
