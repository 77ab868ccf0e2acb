import Packwright.Config.Merge
import Packwright.Toml.Reader

/-!
# Loading a configuration

Reads the configuration file of a workspace, if it has one, and merges it over the initial
configuration.

* The file is TOML in UTF-8. Failures to read it are kept apart from values that are wrong.
-/

namespace Packwright.Config

def fileName : String := "buildtool.toml"

/-- Why a configuration cannot be loaded. -/
inductive LoadError where
  | merge (cause : MergeError)
  | disk (cause : Disk.Error)
  | undecodable (cause : Text.Utf8.DecodeError)
  | document (cause : Toml.Error)
  deriving Repr, DecidableEq

/-- What the configuration file of a workspace says; nothing if there is none. -/
def readFile (disk : Disk) (workspace : FilePath) : Except LoadError Value.Fields :=
  let path := workspace.child fileName
  if disk.pathExists path then do
    let bytes ← (disk.read path).mapError .disk
    let document ← (Text.Utf8.decodeChars bytes).mapError .undecodable
    (Toml.read document).mapError .document
  else .ok []

/-- The configuration of a workspace: the initial one, under what its file says, under what the
command line says. -/
def load (disk : Disk) (workspace : FilePath) (o : Overrides) : Except LoadError Config := do
  let workspace ← (disk.resolve workspace).mapError fun e => .merge (.path e)
  let payload ← readFile disk workspace
  (merge disk (initial workspace) payload o).mapError .merge

end Packwright.Config
