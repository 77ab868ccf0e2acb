import Packwright.Bundle.Package
import Packwright.Compile.Scope

/-!
# Rebuilding what has changed

Takes batches of changed outputs and does for each path what it asks for. The compiled form of a
test or of an extra file is written to disk as it is; any other output makes its unit dirty, and
dirty units are bundled anew.

* `owner` says to what a path belongs; a path that belongs to nothing is fatal to its batch before
  anything is done.
* `process` does a batch. A unit that fails is reported and the others are bundled all the same.
-/

namespace Packwright.Watch

/-- A watch over some units: they may be fewer than the registry knows. Extra files are virtual
paths. -/
structure Coordinator where
  units : List BuildUnit
  bundler : Bundler
  extra : List String
  deriving Inhabited

/-- To what a changed path belongs. -/
inductive Owner where
  | passThrough
  | unit (u : BuildUnit)
  deriving Repr, DecidableEq

namespace Coordinator

def rootOf (path : String) : FilePath :=
  .ofString (Path.parent (Path.parent path))

/-- To what a changed path belongs. -/
def owner (c : Coordinator) (path : String) : Except Failure Owner :=
  let source := Path.sourcePathFor path
  if c.extra.contains source then .ok .passThrough
  else match c.bundler.registry.byRoot (rootOf path) with
    | none => .error (.noUnit path)
    | some u =>
      if !c.units.contains u then .error (.noUnit path)
      else if u.testPaths.contains source then .ok .passThrough
      else .ok (.unit u)

/-- The units among some owners, each once, in order of first occurrence. -/
def dirtyUnits (owners : List Owner) : List BuildUnit :=
  owners.foldl (fun dirty o =>
    match o with
    | .passThrough => dirty
    | .unit u => if dirty.contains u then dirty else dirty ++ [u]) []

def directPaths (batch : Batch) (owners : List Owner) : List String :=
  ((batch.zip owners).filter fun (_, o) => o = .passThrough).map Prod.fst

/-- The paths of a batch that are written through, and the units that it makes dirty. -/
def classify (c : Coordinator) (batch : Batch) : Except Failure (List String × List BuildUnit) := do
  let owners ← batch.mapM c.owner
  pure (directPaths batch owners, dirtyUnits owners)

/-- Writes an output to disk as it is, if it is a module that the store holds. -/
def writeThrough (path : String) : Job Unit := do
  if Path.moduleExtension.isSuffixOf path.toList then
    let s ← Job.session
    match s.store.read path with
    | none => pure ()
    | some content => Job.writeText (.ofString path) content
  else pure ()

/-- Writes outputs to disk as they are. -/
def writeAllThrough : List String → Job Unit
  | [] => pure ()
  | path :: rest => do
    writeThrough path
    writeAllThrough rest

/-- Bundles a unit anew; yields whether it has succeeded, after reporting a failure. -/
def rebuild (c : Coordinator) (u : BuildUnit) : Job Bool := do
  match ← Job.attempt (c.bundler.bundle u) with
  | .ok _ => do
    Job.record "bundle" (some u.label) true none []
    pure true
  | .error e => do
    Job.modify fun s => s.error s!"Failed to bundle {u.label}:\n{e.message}"
    Job.record "bundle" (some u.label) false (some e.message) []
    pure false

/-- Bundles units anew in turn; yields those that have succeeded. -/
def rebuildAll (c : Coordinator) : List BuildUnit → Job (List BuildUnit)
  | [] => pure []
  | u :: rest => do
    let ok ← rebuild c u
    let others ← rebuildAll c rest
    pure (if ok then u :: others else others)

def enter (phase : Phase) : Job Unit :=
  Job.modify fun s => { s with phase := phase }

/-- What the event log tells of a batch. -/
def outcome (batch : Batch) (direct : List String) (dirty : List BuildUnit) : Value.Fields := [
  ("paths", .int batch.length),
  ("direct_writes", .int direct.length),
  ("dirty_units", .texts (dirty.map BuildUnit.label))]

/-- Does a batch; yields the units that were bundled anew. -/
def process (c : Coordinator) (batch : Batch) : Job (List BuildUnit) := do
  enter .flushing
  let (direct, dirty) ← Job.lift (c.classify batch)
  writeAllThrough direct
  enter .rebuilding
  Job.modify fun s => s.info ("Bundling " ++ ", ".intercalate (c.units.map BuildUnit.label))
  let rebuilt ← c.rebuildAll dirty
  Job.modify fun s => s.info "Bundling done."
  Job.record "watch_batch" none true none (outcome batch direct dirty)
  enter .idle
  pure rebuilt

end Coordinator

end Packwright.Watch
