import Packwright.Specifier
import Packwright.Store.Basic
import Packwright.Value

/-!
# Bundler plugins

A plugin resolves module specifiers and loads modules; a plugin that has no answer leaves the
question to the next.

* A host plugin answers from the store of the session; an engine plugin lives inside the bundler
  and is only named here.
* `VirtualOutput` serves compiled modules. Its `candidate` is the path that a specifier would have;
  it answers for candidates that the store holds and asks its delegate otherwise.
* `chain` asks plugins in order and takes the first answer.
-/

namespace Packwright

/-- The text of a module with its source map. -/
structure LoadedModule where
  code : String
  map? : Option String
  deriving Repr, DecidableEq, Inhabited

/-- A plugin that answers from the store of the session. -/
structure HostPlugin where
  name : String
  resolve : Store → (specifier : String) → (importer? : Option String) → Option String
  load : Store → (path : String) → Option LoadedModule

/-- A plugin: one that answers here, or one inside the bundler with its options. -/
inductive Plugin where
  | host (plugin : HostPlugin)
  | engine (name : String) (options : Value.Fields)
  deriving Inhabited

namespace Plugin

def name : Plugin → String
  | host plugin => plugin.name
  | engine name _ => name

/-- The path that a specifier resolves to, if the plugin has an answer. -/
def resolve : Plugin → Store → String → Option String → Option String
  | host plugin, store, specifier, importer? => plugin.resolve store specifier importer?
  | engine .., _, _, _ => none

/-- The module at a path, if the plugin has an answer. -/
def load : Plugin → Store → String → Option LoadedModule
  | host plugin, store, path => plugin.load store path
  | engine .., _, _ => none

/-- The first answer of some plugins to where a specifier leads. -/
def resolveFirst (plugins : List Plugin) (store : Store) (specifier : String)
    (importer? : Option String) : Option String :=
  plugins.findSome? fun p => p.resolve store specifier importer?

def loadFirst (plugins : List Plugin) (store : Store) (path : String) : Option LoadedModule :=
  plugins.findSome? fun p => p.load store path

/-- Plugins as one plugin; the first answer counts. -/
def chain (plugins : List Plugin) : Plugin :=
  host ⟨"chain", resolveFirst plugins, loadFirst plugins⟩

/-- A plugin that answers from fixed tables. -/
def ofTables (name : String) (paths : Dictionary String String)
    (modules : Dictionary String LoadedModule) : Plugin :=
  host ⟨name, fun _ specifier _ => paths.get? specifier, fun _ path => modules.get? path⟩

/-- Whether a plugin answers here. -/
def isHost : Plugin → Bool
  | host _ => true
  | engine .. => false

/-- What the bundler is told of a plugin at a position among all: its name, and the options of one
inside the bundler or the position of one that answers here. -/
def descriptor (index : Nat) : Plugin → Value
  | engine name options =>
    .table [("kind", .text "engine"), ("name", .text name), ("options", .table options)]
  | host plugin =>
    .table [("kind", .text "host"), ("name", .text plugin.name), ("index", .int index)]

def descriptors (plugins : List Plugin) : List Value :=
  plugins.mapIdx descriptor

end Plugin

/-- Serves the compiled modules of one extension. Aliases map the names of packages to the paths of
their entries, without extension. -/
structure VirtualOutput where
  extension : String
  delegate? : Option Plugin
  aliases : Dictionary String String

namespace VirtualOutput

/-- A path below a directory; the empty directory adds nothing. -/
def below (directory specifier : List Char) : List Char :=
  if directory.isEmpty || directory.getLast? == some '/' then directory ++ specifier
  else directory ++ '/' :: specifier

/-- The path that a specifier would have: that of an alias, one relative to the importer, or the
specifier itself; in normal form, and with the extension unless it has one. -/
def candidate (v : VirtualOutput) (specifier : String) (importer? : Option String) : String :=
  let full : List Char :=
    match v.aliases.get? specifier with
    | some path => path.toList
    | none =>
      match importer? with
      | some importer =>
        if specifier.toList.head? == some '.' then
          below (Path.parentChars (Path.normalizeChars importer.toList)) specifier.toList
        else specifier.toList
      | none => specifier.toList
  let full := Path.normalizeChars full
  String.ofList (if Path.hasExtensionChars full then full else full ++ v.extension.toList)

/-- The candidate if the store holds it, and else what the delegate answers. -/
def resolve (v : VirtualOutput) (store : Store) (specifier : String)
    (importer? : Option String) : Option String :=
  let full := v.candidate specifier importer?
  if store.has full then some full
  else v.delegate?.bind fun d => d.resolve store specifier importer?

/-- The stored module with its source map, and else what the delegate answers. -/
def load (v : VirtualOutput) (store : Store) (path : String) : Option LoadedModule :=
  match store.read path with
  | some code => some ⟨code, store.readMap path⟩
  | none => v.delegate?.bind fun d => d.load store path

/-- The plugin that serves compiled modules. -/
def toPlugin (v : VirtualOutput) : Plugin :=
  .host ⟨"virtual-output" ++ v.extension, v.resolve, v.load⟩

end VirtualOutput

end Packwright
