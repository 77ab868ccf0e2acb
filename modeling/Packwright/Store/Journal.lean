import Packwright.Store.Course

/-!
# The journal of a store

What has been written, oldest first, with the paths as they were given: the record that a store is
read against.

* `Feed.run` is any sequence of operations: writes with or without a running clock, flushes, timers
  and new watchers. `Feed.written` keeps its journal.
* `Course.written` keeps the journal of a reactor, whose watchers write as well.
-/

namespace Packwright

/-- Paths and contents in the order in which they were written. -/
abbrev Journal := List (String × String)

namespace Journal

def keys (j : Journal) : List String :=
  j.map fun (path, _) => Path.normalize path

/-- What was written last to a path in normal form, however it was spelled. -/
def last? (j : Journal) (key : String) : Option String :=
  (j.reverse.find? fun (path, _) => Path.normalize path = key).map Prod.snd

end Journal

/-- Whether a path in normal form is that of a source map. -/
def Store.IsMapKey (key : String) : Prop :=
  mapSuffix <:+ key.toList

instance : DecidablePred Store.IsMapKey := fun key =>
  inferInstanceAs (Decidable (Store.mapSuffix <:+ key.toList))

/-! ## Journals that are kept -/

namespace Feed

variable {ω : Type}

/-- What can be done to a feed. -/
inductive Operation (ω : Type) where
  | write (clock? : Option Nat) (path content : String)
  | flush
  | fire (now : Nat)
  | watch (w : ω)

/-- What an operation writes. -/
def Operation.written? : Operation ω → Option (String × String)
  | write _ path content => some (path, content)
  | _ => none

/-- What one operation does; what it hands out is left to others. -/
def operate (f : Feed ω) : Operation ω → Feed ω
  | .write clock? path content => f.write clock? path content
  | .flush => f.flush.1
  | .fire now => (f.fire now).1
  | .watch w => f.watch w

def run (f : Feed ω) (operations : List (Operation ω)) : Feed ω :=
  operations.foldl operate f

def written (operations : List (Operation ω)) : Journal :=
  operations.filterMap Operation.written?

end Feed

namespace Reactor.Course

/-- What a move does to the feed, if it does something. -/
def operation? (c : Course) : Move → Option (Feed.Operation Nat)
  | .work clock? =>
    match c.agenda with
    | (_, .perform (.write path content)) :: _ => some (.write clock? path content)
    | (_, .perform .flush) :: _ => some .flush
    | (_, .perform (.watch ..)) :: _ => some (.watch c.reactor.watchers.length)
    | _ => none
  | _ => none

/-- What a run of moves does to the feed, whoever asks for it. -/
def operations (c : Course) : List Move → List (Feed.Operation Nat)
  | [] => []
  | m :: rest => (c.operation? m).toList ++ (c.step m).operations rest

def written (c : Course) (moves : List Move) : Journal :=
  Feed.written (c.operations moves)

end Reactor.Course

end Packwright
