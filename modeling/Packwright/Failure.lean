import Packwright.Annotate
import Packwright.Config.Load
import Packwright.DocComment
import Packwright.Unit.Basic

/-!
# Failures

Why a build, or a part of it, fails. Each cause belongs to the part that it comes from; here they
are put together, because a build runs through all parts.

* `Failure.message` is the text by which a failure is reported.
-/

namespace Packwright

/-- What is wrong between the host and an engine: a code, and words for a person. -/
structure EngineError where
  code : String
  text : String
  deriving Repr, DecidableEq, Inhabited

def EngineError.message (e : EngineError) : String :=
  e.code ++ ": " ++ e.text

/-- Why a unit cannot be bundled. -/
inductive BundleError where
  | noOutput (unit path : String)
  | noGrammarPlugin (unit : String)
  deriving Repr, DecidableEq

def BundleError.message : BundleError → String
  | noOutput unit path => s!"{unit}: no compiled output for {path}"
  | noGrammarPlugin unit => s!"{unit}: unit has .grammar files but no grammar plugin"

/-- Why a build fails. -/
inductive Failure where
  /-- A document or a list of patches is not as it should be. -/
  | annotate (cause : Annotate.Error)
  /-- The documentation address cannot be put into a comment. -/
  | template (cause : Template.Error)
  /-- A file or a directory cannot be read or written. -/
  | disk (cause : Disk.Error)
  /-- A file does not hold a text. -/
  | undecodable (cause : Text.Utf8.DecodeError)
  /-- A path cannot be made absolute. -/
  | unresolved (cause : Disk.ResolveError)
  /-- A document holds an integer of too many digits. -/
  | tooManyDigits (count : Nat)
  /-- The configuration file is not a document. -/
  | configDocument
  /-- A configuration says something wrong. -/
  | config (cause : Config.Error)
  /-- A manifest is missing or wrong. -/
  | manifest (cause : Manifest.Error)
  /-- A unit cannot be bundled. -/
  | bundle (cause : BundleError)
  /-- A changed path belongs to no unit. -/
  | noUnit (path : String)
  /-- A request to an engine fails. -/
  | engine (cause : EngineError)
  /-- An engine is to be started by no command. -/
  | noEngineCommand
  /-- An engine takes no more requests. -/
  | closedPipe
  /-- A list is asked for, and a value of another kind is there. -/
  | notAList (kind : String)
  /-- A handler refuses. -/
  | refusal (text : String)
  /-- An engine breaks down. -/
  | breakdown (text : String)
  /-- An answer is waited for that can never come. -/
  | stalled
  deriving Repr, DecidableEq

namespace Failure

/-- The text by which a failure is reported. -/
def message : Failure → String
  | annotate cause => cause.message
  | template cause => cause.message
  | disk cause => cause.message
  | undecodable cause => cause.message
  | unresolved cause => cause.message
  | tooManyDigits count => (Json.ReadError.tooManyDigits count).message
  | configDocument => "Invalid document"
  | config cause => cause.message
  | manifest cause => cause.message
  | bundle cause => cause.message
  | noUnit path => "No package found for " ++ path
  | engine cause => cause.message
  | noEngineCommand => "Engine command must not be empty."
  | closedPipe => "engine stdin is closed"
  | notAList kind => Value.notAList kind
  | refusal text => text
  | breakdown text => text
  | stalled => "Stalled"

/-- The failure of reading a text. -/
def ofText : Disk.TextError → Failure
  | .disk cause => disk cause
  | .undecodable cause => undecodable cause

/-- The failure of loading a configuration. -/
def ofConfig : Config.LoadError → Failure
  | .merge (.value cause) => config cause
  | .merge (.path cause) => unresolved cause
  | .disk cause => disk cause
  | .undecodable cause => undecodable cause
  | .document .malformed => configDocument
  | .document (.tooManyDigits count) => tooManyDigits count

def ofSourceMap (cause : SourceMap.Error) : Failure :=
  annotate (.sourceMap cause)

def ofEngine (code text : String) : Failure :=
  engine ⟨code, text⟩

end Failure

end Packwright
