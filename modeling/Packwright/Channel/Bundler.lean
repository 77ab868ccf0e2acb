import Packwright.Bundle.Request
import Packwright.Channel.Basic
import Packwright.Session

/-!
# The bundler at the other end of a channel

What the bundler is sent, what it may call while it bundles, and what its answers mean.

* A call may name a plugin by its position among all plugins of the request. A call that names none
  is for those that answer on this side, in order.
* `buildOf` and `artifactsOf` read the answers to the two kinds of request.
-/

namespace Packwright

/-- What a bundling sees of its surroundings and does to them. -/
structure BundlerHost (σ : Type) where
  store : σ → Store
  warn : BundleWarning → σ → σ

namespace BundlerHost

variable {σ : Type}

/-- The position that a value names; truth values name the first two. -/
def position? : Value → Option Nat
  | .int i => if i < 0 then none else some i.toNat
  | .bool b => some (if b then 1 else 0)
  | _ => none

/-- The plugin that a call is for. -/
def target (r : BundleRequest) (params : Value.Fields) : Plugin :=
  (((params.get? "plugin").bind position?).bind fun n => r.plugins[n]?).getD
    (.chain (r.plugins.filter Plugin.isHost))

/-- What the bundler is told of a loaded module. -/
def ofLoaded : Option LoadedModule → Value
  | none => .null
  | some m => .table [("code", .text m.code), ("map", .ofText? m.map?)]

def resolve (h : BundlerHost σ) (r : BundleRequest) : Handler σ := fun params s =>
  let importer? := (params.get? "importer").bind Value.text?
  let found := (target r params).resolve (h.store s) (Value.textAt params "specifier") importer?
  (.ok (.ofText? found), s)

def load (h : BundlerHost σ) (r : BundleRequest) : Handler σ := fun params s =>
  (.ok (ofLoaded ((target r params).load (h.store s) (Value.textAt params "path"))), s)

def isExternal (r : BundleRequest) : Handler σ := fun params s =>
  (.ok (.bool (Specifier.isExternal r.externals (Value.textAt params "specifier"))), s)

def warning (h : BundlerHost σ) : Handler σ := fun params s =>
  (.ok .null, h.warn ⟨Value.textAt params "code", Value.textAt params "message"⟩ s)

def handlers (h : BundlerHost σ) (r : BundleRequest) : Handlers σ :=
  [("resolve", h.resolve r), ("load", h.load r), ("external", isExternal r),
    ("warning", h.warning)]

/-- A bundling that reads the store and warns on the console. -/
def ofRequest (r : BundleRequest) : BundlerHost Session where
  store s := s.store
  warn w s := s.warn r w

end BundlerHost

def BundleRequest.params (r : BundleRequest) : Value.Fields :=
  [("input", .text r.input), ("plugins", .list (Plugin.descriptors r.plugins))]

def BundlerHost.bundleErrand {σ : Type} (h : BundlerHost σ) (r : BundleRequest) : Errand σ :=
  ⟨none, "bundle", r.params, h.handlers r⟩

/-- What the bundler is asked to write a module graph, for a file given by its text. -/
def BundlerHost.generateErrand {σ : Type} (h : BundlerHost σ) (r : BundleRequest) (build : String)
    (format : ModuleFormat) (file : String) (sourceMaps liveBindings : Bool) : Errand σ :=
  let params : Value.Fields := [
    ("build", .text build),
    ("format", .text format.name),
    ("file", .text file),
    ("source_map", .bool sourceMaps),
    ("external_live_bindings", .bool liveBindings)]
  ⟨none, "generate", params, h.handlers r⟩

/-- The name that an answer gives to a module graph. -/
def BundleRequest.buildOf (answer : Value) : Except Failure String :=
  match answer.field? "build" with
  | some (.text build) => .ok build
  | _ => .error (.ofEngine "INVALID_RESPONSE" "bundle response lacks a build id.")

namespace Artifact

/-- The source map of an artifact, given as a document or as a table. -/
def mapOf : Option Value → Except Failure (Option ArtifactMap)
  | some (.text document) =>
    ((SourceMap.ofText document).mapError .ofSourceMap).map (some ∘ .parsed)
  | some (.table fields) =>
    ((SourceMap.ofValue (.table fields)).mapError .ofSourceMap).map (some ∘ .parsed)
  | _ => .ok none

def ofFields (fields : Value.Fields) : Except Failure Artifact := do
  let map? ← mapOf (fields.get? "map")
  pure ⟨Value.textAt fields "file_name", Value.textAt fields "code", map?⟩

def ofAnswer : Value → Except Failure (List Artifact)
  | .table fields => do
    let listed : Value := (Dictionary.get? fields "output").getD (.list [])
    let tables ← listed.tablesAmong.mapError Failure.notAList
    tables.mapM ofFields
  | _ => .ok []

end Artifact

end Packwright
