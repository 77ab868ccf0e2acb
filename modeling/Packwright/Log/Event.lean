import Packwright.Disk
import Packwright.Json.Writer
import Packwright.Value

/-!
# The event log

Outcomes of a build, one JSON object on a line each, at the end of a file.

* `Event.line` writes an event with its fields in ascending order of their names.
* `EventLog.append` puts the line at the end of the file. The directory of the file is made before
  the first event, so a build without events leaves no trace.
-/

namespace Packwright

/-- An outcome that is worth recording. -/
structure Event where
  timestamp : String
  kind : String
  unit? : Option String
  ok : Bool
  error? : Option String
  metadata : Value.Fields
  deriving Repr, Inhabited

namespace Event

def toValue (e : Event) : Value :=
  .table [
    ("timestamp", .text e.timestamp),
    ("kind", .text e.kind),
    ("unit", .ofText? e.unit?),
    ("ok", .bool e.ok),
    ("error", .ofText? e.error?),
    ("metadata", .table e.metadata)]

def line (e : Event) : String :=
  Json.writeSorted e.toValue

end Event

/-- A file that events are written to, and whether its directory has been made. -/
structure EventLog where
  path : FilePath
  ready : Bool
  deriving Repr, DecidableEq, Inhabited

namespace EventLog

/-- Writes an event at the end of the file. -/
def append (log : EventLog) (disk : Disk) (e : Event) : Except Disk.Error (EventLog × Disk) := do
  let disk ← if log.ready then pure disk else disk.makeDirectories log.path.parent
  let disk ← disk.append log.path (Text.Utf8.encode (e.line ++ "\n"))
  pure ({ log with ready := true }, disk)

end EventLog

end Packwright
