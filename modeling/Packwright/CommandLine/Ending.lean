import Packwright.CommandLine.Invocation
import Packwright.Session

/-!
# How the program ends

A run of the program ends with a status. What is wrong with the configuration or with an engine is
explained in a line on the console; any other failure is left to whoever has started the program.

* `Outcome` is what came of a build or a watch.
* `conclude` turns it into an ending.
-/

namespace Packwright.CommandLine

/-- What came of a build or a watch. -/
inductive Outcome where
  /-- It has run to its end; a build may have been stopped by the compiler. -/
  | finished (ok : Bool)
  | failed (cause : Failure)
  | interrupted
  deriving Repr, DecidableEq, Inhabited

/-- How the program ends. -/
inductive Ending where
  | status (n : Nat)
  | failure (cause : Failure)
  deriving Repr, DecidableEq, Inhabited

/-- What is said about a failure on the console, if the program explains it. -/
def explanation? : Failure → Option String
  | .config cause => some cause.message
  | .engine cause => some cause.message
  | _ => none

/-- Ends the program. -/
def conclude (s : Session) : Outcome → Ending × Session
  | .finished true => (.status 0, s)
  | .finished false => (.status 1, s)
  | .interrupted => (.status 130, s)
  | .failed cause =>
    match explanation? cause with
    | some text => (.status 2, s.error ("buildtool: " ++ text))
    | none => (.failure cause, s)

/-- Ends the program before it has started. Help is information, and misuse an error. -/
def stopped (s : Session) (stop : Stop) : Ending × Session :=
  match stop with
  | .help _ => (.status stop.status, s.info stop.text)
  | .usage .. => (.status stop.status, s.error stop.text)

/-- The commands of both engines, which a build and a watch need alike. -/
def requireEngines (config : Config) : Except Failure EngineCommands :=
  if config.engines.compiler.isEmpty then .error (.config (.noCommand "compiler"))
  else if config.engines.bundler.isEmpty then .error (.config (.noCommand "bundler"))
  else .ok config.engines

end Packwright.CommandLine
