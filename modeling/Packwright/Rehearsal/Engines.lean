import Packwright.Job
import Packwright.Text.Search

/-!
# Engines for a rehearsal

A compiler and a bundler that only go through the motions, to try a build without real engines.
They follow a script and note down what they are asked.

* The compiler copies sources through and may read, write, report and break down on its way.
* The bundler asks its plugins, and writes what it has loaded or what the script tells it to.
-/

namespace Packwright.Rehearsal

/-- What the compiler does on its way. -/
inductive CompilerAction where
  | emit (only : List String)
  | read (path : String)
  | write (path content : String)
  | report (d : Diagnostic)
  | breakDown (text : String)
  deriving Repr, Inhabited

/-- What the bundler does on its way. -/
inductive BundlerAction where
  | resolve (specifier : String) (importer? : Option String)
  | load (path : String)
  | isExternal (specifier : String)
  | warn (code text : String)
  deriving Repr, Inhabited

/-- The script of the compiler. -/
structure CompilerScript where
  actions : List CompilerAction
  diagnostics : List Diagnostic
  emitSkipped : Bool
  deriving Repr, Inhabited

/-- The script of the bundler. It breaks down on inputs that contain one of the texts; outputs are
given by format, and for declarations. -/
structure BundlerScript where
  breaksOn : List String
  actions : List BundlerAction
  outputs : Dictionary String (List Artifact)
  deriving Repr, Inhabited

/-- A module graph of the bundler. -/
structure Graph where
  input : String
  loaded : LoadedModule
  deriving Repr, Inhabited

/-- The engines: their scripts, what they have noted down, and the module graphs so far. -/
structure Engines where
  compiler : CompilerScript
  bundler : BundlerScript
  notes : List Value
  graphs : List Graph
  deriving Inhabited

namespace Engines

def note (e : Engines) (items : List Value) : Engines :=
  { e with notes := e.notes ++ [.list items] }

end Engines

abbrev State : Type := Session × Engines

/-! ## The compiler -/

/-- Copies a source through: once as a module and once as declarations. -/
def emitSource (r : CompileRequest) (s : Session) (name : String) : Except Failure Session := do
  match ← r.mangler.read s.disk name with
  | none => pure s
  | some content =>
    let s := s.write (Path.replaceSuffix name ".ts" ".js") content
    pure (s.write (Path.replaceSuffix name ".ts" ".d.ts") ("// types\n" ++ content))

/-- Copies sources through until one cannot be read. -/
def emitSources (r : CompileRequest) : List String → Session → Except Failure Unit × Session
  | [], s => (.ok (), s)
  | name :: rest, s =>
    match emitSource r s name with
    | .error e => (.error e, s)
    | .ok s => emitSources r rest s

def CompilerAction.perform (r : CompileRequest) (s : State) :
    CompilerAction → Except Failure Unit × State
  | .emit only =>
    let names := if only.isEmpty then r.rootNames else r.rootNames.filter only.contains
    let (result, session) := emitSources r names s.1
    (result, (session, s.2))
  | .read path =>
    match r.mangler.read s.1.disk path with
    | .error e => (.error e, s)
    | .ok content? =>
      (.ok (), (s.1, s.2.note [.text "read", .text path, .ofText? content?]))
  | .write path content => (.ok (), (s.1.write path content, s.2))
  | .report d => (.ok (), (s.1.report d, s.2))
  | .breakDown text => (.error (.breakdown text), s)

def performAll (r : CompileRequest) : List CompilerAction → State → Except Failure Unit × State
  | [], s => (.ok (), s)
  | action :: rest, s =>
    match action.perform r s with
    | (.error e, s) => (.error e, s)
    | (.ok _, s) => performAll r rest s

/-- Takes a request: notes it down and does what the script says. -/
def begin (r : CompileRequest) (s : State) : Except Failure Unit × State :=
  performAll r s.2.compiler.actions
    (s.1, s.2.note [.text "tsconfig", .texts r.rootNames, r.toValue])

def compile (r : CompileRequest) (s : State) : Except Failure CompileResult × State :=
  let (result, s) := begin r s
  (result.map fun _ => ⟨s.2.compiler.diagnostics, s.2.compiler.emitSkipped⟩, s)

/-! ## The bundler -/

/-- What is noted down of a loaded module. -/
def LoadedModule.toValue : Option LoadedModule → Value
  | none => .null
  | some m => .table [("code", .text m.code), ("map", .ofText? m.map?)]

def BundlerAction.perform (r : BundleRequest) (s : State) : BundlerAction → State
  | .resolve specifier importer? =>
    let found := Plugin.resolveFirst r.plugins s.1.store specifier (importer?.getD r.input)
    (s.1, s.2.note [.text "resolve", .text specifier, .ofText? found])
  | .load path =>
    let found := Plugin.loadFirst r.plugins s.1.store path
    (s.1, s.2.note [.text "load", .text path, LoadedModule.toValue found])
  | .isExternal specifier =>
    let found := Specifier.isExternal r.externals specifier
    (s.1, s.2.note [.text "external", .text specifier, .bool found])
  | .warn code text => (s.1.warn r ⟨code, text⟩, s.2)

def bundle (r : BundleRequest) (s : State) : Except Failure String × State :=
  let s : State :=
    (s.1, s.2.note [.text "bundle", .text r.input, .list (Plugin.descriptors r.plugins)])
  if s.2.bundler.breaksOn.any fun part => Text.occursIn part.toList r.input.toList then
    (.error (.breakdown ("cannot bundle " ++ r.input)), s)
  else
    let (session, e) := s.2.bundler.actions.foldl (fun s a => a.perform r s) s
    let loaded := (Plugin.loadFirst r.plugins session.store r.input).getD ⟨"", none⟩
    let graphs := e.graphs ++ [⟨r.input, loaded⟩]
    (.ok (toString e.graphs.length), (session, { e with graphs := graphs }))

def emptyMap : String :=
  "\x7b\"version\":3,\"sources\":[],\"names\":[],\"mappings\":\"AAAA\"\x7d"

/-- The artifact of a module graph for which the script gives none. -/
def plainArtifact (g : Graph) (o : OutputOptions) : Artifact where
  fileName := o.file.name
  code := if o.format = .cjs then "'use strict';\n" ++ g.loaded.code else g.loaded.code
  map? := match g.loaded.map? with
    | some map => some (.written map)
    | none => if o.sourceMaps then some (.written emptyMap) else none

def generate (build : String) (o : OutputOptions) (s : State) :
    Except Failure (List Artifact) × State :=
  let g := (build.toNat?.bind fun n => s.2.graphs[n]?).getD default
  let s : State := (s.1, s.2.note [.text "generate", .table [
    ("format", .text o.format.name),
    ("file", .text o.file.toString),
    ("source_map", .bool o.sourceMaps),
    ("external_live_bindings", .bool o.liveBindings)]])
  let key := if ".d.ts".toList.isSuffixOf g.input.toList then "dts" else o.format.name
  (.ok ((s.2.bundler.outputs.get? key).getD [plainArtifact g o]), s)

/-- The engines of a rehearsal answer at once. -/
def engines : Job.Engines Engines
  | .compile request, s => compile request s
  | .bundle request, s => bundle request s
  | .generate build _ options, s => generate build options s

end Packwright.Rehearsal
