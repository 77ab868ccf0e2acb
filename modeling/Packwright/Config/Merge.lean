import Packwright.Config.Basic
import Packwright.Disk

/-!
# Merging configurations

Puts what a file says over a configuration, and what the command line says over that. A field that
is absent or null keeps its value, except that a list has to be a list and the event log a path
wherever they are given. A value of the wrong shape is an error even where it would be overridden.

* `Config.merge` is the whole step; `Config.override` its last part.
* A path in a file is taken from the workspace and one on the command line from the working
  directory; both are made absolute on the disk.
-/

namespace Packwright.Config

/-- What the command line says; a field that is not set says nothing. The time is checked like one
in a file, and a null says nothing. -/
structure Overrides where
  sourceMaps? : Option Bool
  pureAnnotations? : Option Bool
  debounceMs : Value
  eventLog? : Option FilePath
  deriving Repr, Inhabited

def Overrides.none : Overrides := ⟨.none, .none, .null, .none⟩

/-- Why a merge fails: a value is wrong, or a path cannot be made absolute. -/
inductive MergeError where
  | value (cause : Error)
  | path (cause : Disk.ResolveError)
  deriving Repr, DecidableEq

/-! ## Reading fields -/

/-- A section of a file; an absent one has no fields. -/
def sectionOf (payload : Value.Fields) (name : String) : Except MergeError Value.Fields :=
  match payload.get? name with
  | none => .ok []
  | some (.table fields) => .ok fields
  | some _ => .error (.value (.notATable name))

def fieldOf (fields : Value.Fields) (name : String) : Value :=
  (fields.get? name).getD .null

/-- A truth value; null keeps the old one. -/
def readBool (field : String) (value : Value) (old : Bool) : Except MergeError Bool :=
  match value with
  | .null => .ok old
  | .bool b => .ok b
  | _ => .error (.value (.notABoolean field))

/-- A text that is not empty; null keeps the old one. -/
def readText (field : String) (value : Value) (old : String) : Except MergeError String :=
  match value with
  | .null => .ok old
  | .text s => if s.isEmpty then .error (.value (.notAText field)) else .ok s
  | _ => .error (.value (.notAText field))

/-- The texts of a list of values, if all are texts. -/
def allTexts : List Value → Option (List String)
  | [] => some []
  | .text s :: rest => (allTexts rest).map (s :: ·)
  | _ :: _ => none

/-- A list of texts; an absent one keeps the old one. -/
def readTexts (field : String) (value? : Option Value) (old : List String) :
    Except MergeError (List String) :=
  match value? with
  | none => .ok old
  | some (.list items) =>
    match allTexts items with
    | some texts => .ok texts
    | none => .error (.value (.notOnlyTexts field))
  | some _ => .error (.value (.notAList field))

/-- A time from one millisecond to the greatest one. -/
def checkDebounce (field : String) (ms : Int) : Except MergeError Nat :=
  if ms < 1 then .error (.value (.notPositive field))
  else if maxDebounceMs < ms then .error (.value (.tooGreat field))
  else .ok ms.toNat

/-- A time for which changes are collected; null keeps the old one. -/
def readDebounce (field : String) (value : Value) (old : Nat) : Except MergeError Nat :=
  match value with
  | .null => .ok old
  | .int ms => checkDebounce field ms
  | _ => .error (.value (.notPositive field))

def absolute (disk : Disk) (p : FilePath) : Except MergeError FilePath :=
  (disk.resolve p).mapError .path

/-! ## Merging -/

/-- Puts what the command line says over a configuration. -/
def override (disk : Disk) (c : Config) (o : Overrides) : Except MergeError Config := do
  let debounceMs ← readDebounce "overrides.debounce_ms" o.debounceMs c.debounceMs
  let eventLog? ← match o.eventLog? with
    | none => .ok c.eventLog?
    | some p => (absolute disk p).map some
  pure { c with
    outputs := ⟨o.sourceMaps?.getD c.outputs.sourceMaps,
      o.pureAnnotations?.getD c.outputs.pureAnnotations⟩
    debounceMs := debounceMs
    eventLog? := eventLog? }

/-- Puts the section on outputs over the old choice. -/
def mergeOutputs (old : OutputChoice) (fields : Value.Fields) : Except MergeError OutputChoice := do
  let sourceMaps ← readBool "build.source_map" (fieldOf fields "source_map") old.sourceMaps
  let pureAnnotations ←
    readBool "build.pure_annotations" (fieldOf fields "pure_annotations") old.pureAnnotations
  pure ⟨sourceMaps, pureAnnotations⟩

/-- Puts the section on the compiler over the old language level. -/
def mergeLanguage (old : LanguageLevel) (fields : Value.Fields) :
    Except MergeError LanguageLevel := do
  let lib ← readTexts "compiler.lib" (fields.get? "lib") old.lib
  let types ← readTexts "compiler.types" (fields.get? "types") old.types
  let target ← readText "compiler.target" (fieldOf fields "target") old.target
  let module ← readText "compiler.module" (fieldOf fields "module") old.module
  let strict ← readBool "compiler.strict" (fieldOf fields "strict") old.strict
  pure ⟨target, module, lib, types, strict⟩

/-- Puts the section on the engines over the old commands. -/
def mergeEngines (old : EngineCommands) (fields : Value.Fields) :
    Except MergeError EngineCommands := do
  let compiler ← readTexts "engines.compiler" (fields.get? "compiler") old.compiler
  let bundler ← readTexts "engines.bundler" (fields.get? "bundler") old.bundler
  pure ⟨compiler, bundler⟩

/-- Puts the section on logging over the old event log. A null path is the workspace itself. -/
def mergeEventLog (disk : Disk) (workspace : FilePath) (old? : Option FilePath)
    (fields : Value.Fields) : Except MergeError (Option FilePath) :=
  match fields.get? "event_log" with
  | none => .ok old?
  | some value => do
    let path ← readText "log.event_log" value ""
    (absolute disk (workspace.child path)).map some

/-- Puts what a file says over a configuration, and what the command line says over that. -/
def merge (disk : Disk) (base : Config) (payload : Value.Fields) (o : Overrides) :
    Except MergeError Config := do
  let build ← sectionOf payload "build"
  let compiler ← sectionOf payload "compiler"
  let docs ← sectionOf payload "docs"
  let watch ← sectionOf payload "watch"
  let engines ← sectionOf payload "engines"
  let log ← sectionOf payload "log"
  let outputs ← mergeOutputs base.outputs build
  let language ← mergeLanguage base.language compiler
  let engines ← mergeEngines base.engines engines
  let eventLog? ← mergeEventLog disk base.workspace base.eventLog? log
  let docBaseUrl ← readText "docs.base_url" (fieldOf docs "base_url") base.docBaseUrl
  let debounceMs ← readDebounce "watch.debounce_ms" (fieldOf watch "debounce_ms") base.debounceMs
  override disk
    ⟨base.workspace, outputs, language, docBaseUrl, debounceMs, engines, eventLog?⟩ o

end Packwright.Config
