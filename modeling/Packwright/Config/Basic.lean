import Packwright.Path.File
import Packwright.Value

/-!
# Configuration

What a build is told about its workspace: which outputs to write, the language level for the
compiler, where the documentation is, how long changes are collected, how the engines are started,
and where events are logged.

* `Config.initial` is the configuration of a workspace that says nothing.
* `Config.toFields` writes a configuration out in the shape in which a file would give it.
* `Error` lists what can be wrong with a value, each with its message.
-/

namespace Packwright

/-- Which outputs are written. -/
structure OutputChoice where
  sourceMaps : Bool
  pureAnnotations : Bool
  deriving Repr, DecidableEq, Inhabited

/-- The language level and the checks of the compiler. -/
structure LanguageLevel where
  target : String
  module : String
  lib : List String
  types : List String
  strict : Bool
  deriving Repr, DecidableEq, Inhabited

/-- The commands that start the engines. -/
structure EngineCommands where
  compiler : List String
  bundler : List String
  deriving Repr, DecidableEq, Inhabited

/-- The configuration of a build. -/
structure Config where
  workspace : FilePath
  outputs : OutputChoice
  language : LanguageLevel
  docBaseUrl : String
  debounceMs : Nat
  engines : EngineCommands
  eventLog? : Option FilePath
  deriving Repr, DecidableEq, Inhabited

namespace Config

/-- The greatest time for which changes are collected, in milliseconds. -/
def maxDebounceMs : Nat := 10000

/-- The configuration of a workspace that says nothing. -/
def initial (workspace : FilePath) : Config where
  workspace := workspace
  outputs := ⟨false, true⟩
  language := ⟨"es6", "es2020", ["es6", "scripthost", "dom"], ["mocha"], true⟩
  docBaseUrl := "https://codemirror.net/6/docs/ref/"
  debounceMs := 100
  engines := ⟨[], []⟩
  eventLog? := none

/-- The configuration in the shape of a file. -/
def toFields (c : Config) : Value.Fields := [
  ("workspace", .text c.workspace.toString),
  ("build", .table [
    ("source_map", .bool c.outputs.sourceMaps),
    ("pure_annotations", .bool c.outputs.pureAnnotations)]),
  ("compiler", .table [
    ("target", .text c.language.target),
    ("module", .text c.language.module),
    ("lib", .texts c.language.lib),
    ("types", .texts c.language.types),
    ("strict", .bool c.language.strict)]),
  ("docs", .table [("base_url", .text c.docBaseUrl)]),
  ("watch", .table [("debounce_ms", .int c.debounceMs)]),
  ("engines", .table [
    ("compiler", .texts c.engines.compiler),
    ("bundler", .texts c.engines.bundler)]),
  ("log", .table [("event_log", .ofText? (c.eventLog?.map FilePath.toString))])]

/-- What can be wrong with a configuration. -/
inductive Error where
  | notATable (sectionName : String)
  | notABoolean (field : String)
  | notAText (field : String)
  | notAList (field : String)
  | notOnlyTexts (field : String)
  | notPositive (field : String)
  | tooGreat (field : String)
  | noCommand (engine : String)
  deriving Repr, DecidableEq

def Error.message : Error → String
  | notATable sectionName => s!"Config section '{sectionName}' must be a table."
  | notABoolean field => s!"Config field '{field}' must be a boolean."
  | notAText field => s!"Config field '{field}' must be a non-empty string."
  | notAList field => s!"Config field '{field}' must be a list of strings."
  | notOnlyTexts field => s!"Config field '{field}' must contain only strings."
  | notPositive field => s!"Config field '{field}' must be a positive integer."
  | tooGreat field => s!"Config field '{field}' must be <= {maxDebounceMs}."
  | noCommand engine => s!"Config field 'engines.{engine}' must name the engine command."

end Config

end Packwright
