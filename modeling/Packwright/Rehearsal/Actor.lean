import Packwright.Dictionary

/-!
# Engines that follow a script

An engine that is played: it has no mind of its own, but for each line that it receives its script
says what it does. Behind the end of its script it does nothing.

* `Actor.receive` gives an engine a line; `Actor.speak` takes a line from it.
* A `Stage` holds the engines that have been started, each with the next script for its command.
-/

namespace Packwright.Rehearsal

-- sums start at the zero of the core library, whatever other instances are in scope
attribute [local instance (high)] Zero.ofOfNat0

/-- What an engine does. -/
inductive Cue where
  | print (text : String)
  | endOutput
  | breakInput
  /-- From now on it does not end when its input does. -/
  | hang
  /-- Somebody interrupts the host. -/
  | interrupt
  deriving Repr, DecidableEq, Inhabited

abbrev Script : Type := List (List Cue)

/-- An engine: what is left of its script, what it has received, and what it has printed that has
not been read. -/
structure Actor where
  command : List String
  script : Script
  received : List String
  unread : List Char
  outputEnded : Bool
  inputBroken : Bool
  hanging : Bool
  deriving Repr, Inhabited

/-- What is heard of an engine. -/
inductive Utterance where
  | line (text : List Char)
  | ended
  | silence
  deriving Repr, DecidableEq

namespace Actor

/-- Does one thing. What is printed behind the end of the output is lost. -/
def perform (a : Actor) : Cue → Actor
  | .print text => if a.outputEnded then a else { a with unread := a.unread ++ text.toList }
  | .endOutput => { a with outputEnded := true }
  | .breakInput => { a with inputBroken := true }
  | .hang => { a with hanging := true }
  | .interrupt => a

/-- Receives a line: notes it down and does what the script says. -/
def receive (a : Actor) (line : String) : Actor :=
  (a.script.headD []).foldl perform
    { a with received := a.received ++ [line], script := a.script.drop 1 }

def interruptsNext (a : Actor) : Bool :=
  (a.script.headD []).contains .interrupt

/-- Takes a line; the last one may be without an end. -/
def speak (a : Actor) : Utterance × Actor :=
  let line := a.unread.takeWhile (· ≠ '\n')
  match a.unread.drop line.length with
  | _ :: rest => (.line line, { a with unread := rest })
  | [] =>
    if !a.outputEnded then (.silence, a)
    else if line.isEmpty then (.ended, a)
    else (.line line, { a with unread := [] })

def killed : String := "<killed>"

def close (a : Actor) : Bool × Actor :=
  if a.hanging then (true, { a with received := a.received ++ [killed] }) else (false, a)

/-- How much an engine may still print. -/
def remaining (a : Actor) : Nat :=
  a.unread.length + (a.script.map fun cues => (cues.map fun
    | .print text => text.length
    | _ => 0).sum).sum

end Actor

/-- The engines that have been started, in order, and the scripts of those that have not. -/
structure Stage where
  scripts : Dictionary String (List Script)
  actors : List Actor
  interrupted : Bool
  deriving Repr, Inhabited

namespace Stage

/-- Starts an engine with the next script for its command; yields its number. -/
def start (s : Stage) (command : List String) : Nat × Stage :=
  let program := command.headD ""
  let scripts := (s.scripts.get? program).getD []
  (s.actors.length, { s with
    scripts := s.scripts.put program (scripts.drop 1)
    actors := s.actors ++ [⟨command, scripts.headD [], [], [], false, false, false⟩] })

/-- Gives an engine a line; yields whether it has taken it. An engine whose input breaks on a line
has got the line, but not taken it. -/
def send (s : Stage) (n : Nat) (line : String) : Bool × Stage :=
  match s.actors[n]? with
  | none => (false, s)
  | some a =>
    if a.inputBroken then (false, s)
    else
      let next := a.receive line
      (!next.inputBroken, { s with
        actors := s.actors.set n next
        interrupted := s.interrupted || a.interruptsNext })

/-- Takes a line from an engine. -/
def hear (s : Stage) (n : Nat) : Utterance × Stage :=
  match s.actors[n]? with
  | none => (.silence, s)
  | some a =>
    let (utterance, a) := a.speak
    (utterance, { s with actors := s.actors.set n a })

def close (s : Stage) (n : Nat) : Bool × Stage :=
  match s.actors[n]? with
  | none => (false, s)
  | some a =>
    let (killed, a) := a.close
    (killed, { s with actors := s.actors.set n a })

/-- How much the engines may still print. -/
def remaining (s : Stage) : Nat :=
  (s.actors.map Actor.remaining).sum

end Stage

end Packwright.Rehearsal
