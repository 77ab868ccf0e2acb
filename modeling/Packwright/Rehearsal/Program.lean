import Packwright.Config.Load
import Packwright.Rehearsal.Production

/-!
# Playing the program

The whole program with played engines: a command line in, an ending and what it has left behind
out.
-/

namespace Packwright.Rehearsal

open CommandLine (Ending Invocation Outcome)

/-- Does what a command line asks for, with a configuration. -/
def runConfigured (i : Invocation) (config : Config) (session : Session) (stage : Stage) :
    Outcome × Session × Stage :=
  let session := { session with eventLog? := config.eventLog?.map fun path => ⟨path, false⟩ }
  match CommandLine.requireEngines config with
  | .error e => (.failed e, session, stage)
  | .ok commands =>
    let p : Production := ⟨commands.compiler, .ofCommand commands.bundler, stage, session⟩
    let entries := i.entries.map FilePath.ofString
    let (outcome, p) := match i.command with
      | .build => p.build config entries
      | .watch => p.watch config entries (i.extra.map FilePath.ofString)
    (outcome, p.session, p.stage)

def runProgram (args : List String) (session : Session) (stage : Stage) :
    Ending × Session × Stage :=
  match CommandLine.parse args with
  | .error stop =>
    let (ending, session) := CommandLine.stopped session stop
    (ending, session, stage)
  | .ok i =>
    let (outcome, session, stage) : Outcome × Session × Stage :=
      match Config.load session.disk (.ofString i.workspace) i.overrides with
      | .error e => (.failed (.ofConfig e), session, stage)
      | .ok config => runConfigured i config session stage
    let (ending, session) := CommandLine.conclude session outcome
    (ending, session, stage)

end Packwright.Rehearsal
