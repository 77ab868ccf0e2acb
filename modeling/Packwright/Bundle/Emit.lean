import Packwright.Job

/-!
# Writing artifacts

Writes the artifacts of a module graph next to the file that the options name. With source maps an
artifact that has one gets a second file beside it and a comment that refers to that file.

* `Transform` is what is done to code and map before they are written; `annotating` marks calls
  that are free of effects.
* `emit` asks the bundler for the artifacts, `writeAll` writes them; the source map of an artifact
  is written before its code.
-/

namespace Packwright.Bundle

/-- What is done to code and its source map before they are written. -/
abbrev Transform : Type := String → Option String → Except Failure (String × Option String)

def untouched : Transform := fun code map? => .ok (code, map?)

/-- Marks calls without effects, if that is chosen. -/
def annotating (outputs : OutputChoice) : Transform := fun code map? =>
  if outputs.pureAnnotations then (Annotate.annotate code map?).mapError .annotate
  else .ok (code, map?)

def mapComment : String := "//# sourceMappingURL="

/-- Code with a reference to its source map in place of the blanks at its end. -/
def withReference (code mapName : String) : String :=
  String.ofList (Text.dropTrailing Text.isBlank code.toList) ++ "\n" ++ mapComment ++
    (FilePath.ofString mapName).name ++ "\n"

/-- The text of the source map of an artifact, if one is to be written. -/
def mapText (options : OutputOptions) (a : Artifact) : Except Failure (Option String) :=
  match options.sourceMaps, a.map? with
  | true, some map => (map.toText.mapError .ofSourceMap).map some
  | _, _ => .ok none

/-- Writes an artifact; yields the paths written. -/
def writeArtifact (options : OutputOptions) (transform : Transform) (a : Artifact) :
    Job (List FilePath) := do
  let map? ← Job.lift (mapText options a)
  let (code, map?) ← Job.lift (transform a.code map?)
  let directory := options.file.parent
  let target := directory.child a.fileName
  match map? with
  | none => do
    Job.writeText target code
    pure [target]
  | some map => do
    let mapName := a.fileName ++ ".map"
    Job.writeText (directory.child mapName) map
    Job.writeText target (withReference code mapName)
    pure [directory.child mapName, target]

/-- Writes artifacts in turn; yields the paths written. -/
def writeAll (options : OutputOptions) (transform : Transform) :
    List Artifact → Job (List FilePath)
  | [] => pure []
  | a :: rest => do
    let first ← writeArtifact options transform a
    let others ← writeAll options transform rest
    pure (first ++ others)

def emit (build : String) (request : BundleRequest) (options : OutputOptions)
    (transform : Transform) : Job (List FilePath) := do
  let artifacts ← Job.request (.generate build request options)
  writeAll options transform artifacts

end Packwright.Bundle
