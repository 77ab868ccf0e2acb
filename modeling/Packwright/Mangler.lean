import Packwright.Failure

/-!
# Sources with their doc comments

The compiler reads its sources through a mangler, which turns doc comments into block comments that
the compiler keeps. Only files that stand directly in one of the mangler's directories are changed.
-/

namespace Packwright

/-- Directories, as normalized virtual paths, and the address of the documentation. -/
structure Mangler where
  dirs : List String
  docBaseUrl : String
  deriving Repr, DecidableEq, Inhabited

namespace Mangler

def ofDirs (dirs : List String) (docBaseUrl : String) : Mangler :=
  ⟨dirs.map Path.normalize, docBaseUrl⟩

/-- Whether a file stands directly in one of the directories. -/
def owns (m : Mangler) (path : String) : Bool :=
  m.dirs.contains (Path.parent (Path.normalize path))

/-- What the compiler sees of a file. -/
def mangle (m : Mangler) (path : String) (content? : Option String) :
    Except Template.Error (Option String) :=
  match content? with
  | none => .ok none
  | some content =>
    if m.owns path then (DocComment.mangle m.docBaseUrl content).map some else .ok (some content)

/-- What the compiler sees of a file on disk. -/
def read (m : Mangler) (disk : Disk) (path : String) : Except Failure (Option String) := do
  let content? ← (disk.readText? path).mapError .ofText
  (m.mangle path content?).mapError .template

end Mangler

end Packwright
