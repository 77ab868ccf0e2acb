import Packwright.Bundle.Request
import Packwright.Compile.Request
import Packwright.Log.Event
import Packwright.Store.Feed

/-!
# The session of a build

Everything that a build reads and changes: the disk, the console, the event log, and the output of
the compiler.

* `info` and `error` write a line to the console.
* `record` writes an event to the log, if there is one.
* `report` and `warn` say what becomes of the messages of the engines.
-/

namespace Packwright

/-- What a watch is doing: it waits, writes files through, or bundles. -/
inductive Phase where
  | idle
  | flushing
  | rebuilding
  deriving Repr, DecidableEq, Inhabited

/-- What a build reads and changes. -/
structure Session where
  disk : Disk
  output : String
  errors : String
  eventLog? : Option EventLog
  timestamp : String
  clock? : Option Nat
  feed : Feed Unit
  phase : Phase
  deriving Inhabited

namespace Session

/-- The session of a disk at which nothing has happened. -/
def ofDisk (disk : Disk) (timestamp : String) : Session where
  disk := disk
  output := ""
  errors := ""
  eventLog? := none
  timestamp := timestamp
  clock? := none
  feed := .empty 0
  phase := .idle

def info (s : Session) (line : String) : Session :=
  { s with output := s.output ++ line ++ "\n" }

def error (s : Session) (line : String) : Session :=
  { s with errors := s.errors ++ line ++ "\n" }

def report (s : Session) (d : Diagnostic) : Session :=
  if d.isBlocking then s.error d.render else s.info d.render

def warn (s : Session) (r : BundleRequest) (w : BundleWarning) : Session :=
  if r.muted.contains w.code then s else s.info s!"{r.unit}: {w.code}: {w.text}"

/-- The event of an outcome at this time. -/
def stampEvent (s : Session) (kind : String) (unit? : Option String) (ok : Bool)
    (error? : Option String) (metadata : Value.Fields) : Event :=
  ⟨s.timestamp, kind, unit?, ok, error?, metadata⟩

/-- Writes an event to the log, if there is one. -/
def append (s : Session) (e : Event) : Except Disk.Error Session :=
  match s.eventLog? with
  | none => .ok s
  | some log => do
    let (log, disk) ← log.append s.disk e
    pure { s with disk := disk, eventLog? := some log }

def store (s : Session) : Store :=
  s.feed.store

def write (s : Session) (path content : String) : Session :=
  { s with feed := s.feed.write s.clock? path content }

end Session

end Packwright
