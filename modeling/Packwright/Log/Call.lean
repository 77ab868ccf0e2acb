import Packwright.Session

/-!
# Calls at the event log

What is asked of an event log, one call after the other: to take an event as it is, or to stamp an
outcome with the time and take it.
-/

namespace Packwright

/-- A call at an event log. -/
inductive LogCall where
  | append (e : Event)
  | record (now kind : String) (unit? : Option String) (ok : Bool) (error? : Option String)
      (metadata : Value.Fields)
  deriving Repr

/-- The event that a call adds. -/
def LogCall.event : LogCall → Event
  | append e => e
  | record now kind unit? ok error? metadata => ⟨now, kind, unit?, ok, error?, metadata⟩

namespace Session

/-- One call; the time of a session is that of the last outcome. -/
def call (s : Session) : LogCall → Except Disk.Error Session
  | .append e => s.append e
  | .record now kind unit? ok error? metadata =>
    let s := { s with timestamp := now }
    s.append (s.stampEvent kind unit? ok error? metadata)

/-- Calls one after the other, up to the first that fails. -/
def callAll (s : Session) : List LogCall → Except Disk.Error Session
  | [] => .ok s
  | c :: rest => s.call c >>= fun s => callAll s rest

end Session

end Packwright
