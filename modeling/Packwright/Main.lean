import Packwright.Rehearsal.Playbook

/-!
# The command line

Runs the program on a playbook from standard input. What the program says goes to standard output
and standard error; behind it, on a line of standard output, comes a table of the files that it has
changed, if there are any.
-/

namespace Packwright

/-- Runs the program on a playbook and shows what it says and does; yields its status. -/
def play (args : List String) (book : Rehearsal.Playbook) : IO UInt32 := do
  let (ending, session, _) := book.run args
  IO.print session.output
  IO.eprint session.errors
  match ending with
  | .status n =>
    let changed := Rehearsal.changes book.root book.disk session.disk
    unless changed.isEmpty do IO.println (Json.write changed)
    return n.toUInt32
  | .failure cause =>
    IO.eprintln cause.message
    return 1

end Packwright

/-- Runs the program; a command line that asks for nothing needs no playbook. -/
def main (args : List String) : IO UInt32 := do
  let document ← match Packwright.CommandLine.parse args with
    | .ok _ => do (← IO.getStdin).getLine
    | .error _ => pure "\x7b\x7d"
  match Packwright.Json.read document with
  | .ok v => Packwright.play args (.ofValue v)
  | .error e =>
    IO.eprintln e.message
    return 2
