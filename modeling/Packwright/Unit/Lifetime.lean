import Packwright.Unit.Registry

/-!
# A registry in use

What is asked of one registry in the course of a build, while the disk changes.

* A `Success` is a unit that was given for an entry, and what it was given on: the disk of that time
  and what the entry resolved to there.
* `step` is what one request does, `run` what a whole run of them does. The successes are kept for
  their own sake: no request reads them for anything else.
-/

namespace Packwright.Registry

/-- What can be asked of a registry, and what can happen to the disk meanwhile. -/
inductive Request where
  | get (entry : FilePath)
  | getAll (entries : List FilePath)
  | byRoot (root : FilePath)
  | byName (name : String)
  | change (disk : Disk)

/-- A unit that was given: on which disk, for what the entry resolved to. -/
structure Success where
  disk : Disk
  key : FilePath
  unit : BuildUnit

/-- The successes of some entries in turn, up to the first that fails. -/
def successes (disk : Disk) : List FilePath → Registry → List Success
  | [], _ => []
  | entry :: rest, r =>
    match disk.resolve entry, r.get disk entry with
    | .ok key, .ok (r, u) => ⟨disk, key, u⟩ :: successes disk rest r
    | _, _ => []

/-- A registry, the disk as it is, and the successes so far, oldest first. -/
structure Lifetime where
  disk : Disk
  registry : Registry
  given : List Success

namespace Lifetime

def initial (disk : Disk) : Lifetime := ⟨disk, [], []⟩

def step (t : Lifetime) : Request → Lifetime
  | .get entry =>
    match t.registry.get t.disk entry with
    | .ok (r, _) =>
      { t with registry := r, given := t.given ++ successes t.disk [entry] t.registry }
    | .error _ => t
  | .getAll entries =>
    { t with
      registry := (getAll t.disk entries t.registry).1
      given := t.given ++ successes t.disk entries t.registry }
  | .byRoot _ | .byName _ => t
  | .change disk => { t with disk := disk }

def run (t : Lifetime) (requests : List Request) : Lifetime :=
  requests.foldl step t

end Lifetime

end Packwright.Registry
