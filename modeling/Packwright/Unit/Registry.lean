import Packwright.Unit.Load

/-!
# The registry of units

The units of one build, in order of first use. A unit is known by its resolved entry, so no entry
has two units, and a unit that is known is not looked at on disk again.

* `get` yields the unit of an entry and the registry that knows it.
* `byRoot` and `byName` find the first unit of a root directory or a package name.
-/

namespace Packwright

/-- The known units in order of first use. -/
abbrev Registry := List BuildUnit

namespace Registry

/-- The unit of a resolved entry, if it is known. -/
def find? (r : Registry) (entry : FilePath) : Option BuildUnit :=
  List.find? (fun u => u.entry = entry) r

/-- The unit of an entry, made known on first use. -/
def get (r : Registry) (disk : Disk) (entry : FilePath) :
    Except Failure (Registry × BuildUnit) := do
  let entry ← (disk.resolve entry).mapError .unresolved
  match r.find? entry with
  | some u => pure (r, u)
  | none => do
    let u ← BuildUnit.load disk entry
    pure (r ++ [u], u)

/-- The units of some entries in turn; yields the registry also when an entry fails, since the
entries before it are known then. -/
def getAll (disk : Disk) : List FilePath → Registry → Registry × Except Failure (List BuildUnit)
  | [], r => (r, .ok [])
  | entry :: rest, r =>
    match r.get disk entry with
    | .error e => (r, .error e)
    | .ok (r, u) =>
      let (r, found) := getAll disk rest r
      (r, found.map (u :: ·))

def byRoot (r : Registry) (root : FilePath) : Option BuildUnit :=
  List.find? (fun u => u.root = root) r

def byName (r : Registry) (name : String) : Option BuildUnit :=
  List.find? (fun u => u.manifest.name = name) r

end Registry

end Packwright
