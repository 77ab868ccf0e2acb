import Packwright.Compile.Scope
import Packwright.Job

/-!
# Compiling once

Asks the compiler for the whole program of some units. What it writes goes to the store of the
session; its reports go to the console, and the outcome to the event log.
-/

namespace Packwright.Compile

/-- The session with an empty store that collects changes for the time configured. -/
def openStore (config : Config) (s : Session) : Session :=
  { s with feed := .empty config.debounceMs }

/-- What the event log tells of a compilation. -/
def outcome (request : CompileRequest) (result : CompileResult) : Value.Fields := [
  ("root_count", .int request.rootNames.length),
  ("diagnostic_count", .int result.diagnostics.length),
  ("emit_skipped", .bool result.emitSkipped)]

/-- Compiles the program of some units; yields whether there is output to go on with. -/
def once (config : Config) (units : List BuildUnit) (extra : List FilePath) : Job Bool := do
  Job.modify (openStore config)
  let s ← Job.session
  let request ← Job.lift (request s.disk config units extra)
  let result ← Job.request (.compile request)
  Job.modify fun s => result.diagnostics.foldl Session.report s
  Job.record "compile" none (!result.failed) none (outcome request result)
  pure (!result.failed)

end Packwright.Compile
