import Mathlib.Data.Finset.Insert
import Mathlib.Data.List.DropRight
import Packwright.Store.Reaction

/-!
# A reactor at work

What can happen to a reactor, in any order and as often as it likes: it is told to do something, its
timer fires, and it does the next piece of its work. It is told nothing, and no timer fires, while
there is work left; but its watchers may tell it something whenever they are handed a batch.

* `step` is what one move does, `run` what a whole run of them does. Between two pieces of work
  nothing happens that a move does not say.
* Work is marked with the number of the swap that it hands out. A swap is a flush that takes
  something.
* The history tells what has happened, oldest first. Like the marks it is kept for its own sake: no
  move reads it for anything else.
-/

namespace Packwright.Reactor

/-- What a history tells of. -/
inductive Event where
  | joined (name : String)
  /-- A write has changed what is stored; somebody was watching or not. -/
  | changed (path : String) (watched : Bool)
  /-- A flush has taken what was pending, to be handed to those who were watching. -/
  | swapped (batch : Batch) (watchers : List Nat)
  /-- A watcher has been handed the batch of a swap. -/
  | handed (swap watcher : Nat) (batch : Batch)
  deriving Repr, DecidableEq

namespace Event

def joined? : Event → Option String
  | joined name => some name
  | _ => none

def changed? : Event → Option String
  | changed path _ => some path
  | _ => none

def swapped? : Event → Option (Batch × List Nat)
  | swapped batch watchers => some (batch, watchers)
  | _ => none

def handed? : Event → Option (Nat × Batch)
  | handed _ watcher batch => some (watcher, batch)
  | _ => none

/-- Who was handed what on account of a swap. -/
def handedBy? (swap : Nat) : Event → Option (Nat × Batch)
  | handed n watcher batch => if n = swap then some (watcher, batch) else none
  | _ => none

def isSwap (e : Event) : Bool :=
  e.swapped?.isSome

end Event

/-! ## What a history says -/

abbrev History := List Event

namespace History

/-- What has happened since something was taken last. -/
def sinceSwap (h : History) : History :=
  h.rtakeWhile fun e => !e.isSwap

/-- The paths that have changed since then, as often as they have. -/
def unswapped (h : History) : List String :=
  h.sinceSwap.filterMap Event.changed?

def swaps (h : History) : List (Batch × List Nat) :=
  h.filterMap Event.swapped?

/-- Who was handed what on account of a swap, in order. -/
def handedBy (h : History) (swap : Nat) : List (Nat × Batch) :=
  h.filterMap (Event.handedBy? swap)

/-- What is to be handed out on account of a swap, in order. -/
def handoutsOf (h : History) (swap : Nat) : List (Nat × Batch) :=
  match h.swaps[swap]? with
  | none => []
  | some (batch, watchers) => watchers.map fun w => (w, batch)

def names (h : History) : List String :=
  h.filterMap Event.joined?

/-- What was handed out, with the names of those who were handed it. -/
def deliveries (h : History) : List (String × Batch) :=
  (h.filterMap Event.handed?).map fun (w, batch) => (h.names.getD w "", batch)

end History

/-- Paths kept twice: as a list in order, and as a set in which they are looked up. -/
structure PathIndex where
  listed : List String
  members : Finset String

namespace PathIndex

/-- One more path, unless it is among the members. -/
def note (i : PathIndex) (path : String) : PathIndex :=
  if path ∈ i.members then i else ⟨i.listed ++ [path], insert path i.members⟩

/-- What an event makes of the paths that have changed. -/
def follow (i : PathIndex) : Event → PathIndex
  | .changed path _ => i.note path
  | .swapped .. => ⟨[], ∅⟩
  | _ => i

/-- The paths that have changed since something was taken last, kept along with the events. -/
def ofHistory (h : History) : PathIndex :=
  h.foldl follow ⟨[], ∅⟩

end PathIndex

/-! ## Moves -/

/-- What can happen to a reactor. -/
inductive Move where
  /-- It is told to do something. -/
  | ask (command : Command)
  /-- Its timer fires, if the time has come. -/
  | fire (now : Nat)
  /-- It does the next piece of work, with or without a running clock. -/
  | work (clock? : Option Nat)

/-- Whether the clock runs while a move is made. -/
def Move.isClocked : Move → Bool
  | work clock? => clock?.isSome
  | _ => true

/-- A reactor, the work that is left, and what has happened. -/
structure Course where
  reactor : Reactor
  agenda : List (Nat × Task)
  history : History

namespace Course

def initial (debounce : Nat) : Course := ⟨.empty debounce, [], []⟩

def text? (c : Course) (path : String) : Option String :=
  c.reactor.feed.store.files.get? path

/-- What a piece of work makes a history tell. -/
def told (r : Reactor) (swap : Nat) : Task → List Event
  | .perform (.write path content) =>
    if r.feed.store.isChange path content then
      [.changed (Path.normalize path) (!r.feed.watchers.isEmpty)]
    else []
  | .perform .flush =>
    if r.feed.store.pending = [] then [] else [.swapped r.feed.store.pending r.feed.watchers]
  | .perform (.watch name _) => [.joined name]
  | .deliver watcher batch => [.handed swap watcher batch]

/-- Does the next piece of work. -/
def work (c : Course) (clock? : Option Nat) : Course :=
  match c.agenda with
  | [] => c
  | (swap, task) :: rest =>
    let (r, made) := c.reactor.step clock? task
    ⟨r, made.map (c.history.swaps.length, ·) ++ rest, c.history ++ told c.reactor swap task⟩

/-- What one move does. -/
def step (c : Course) : Move → Course
  | .ask command => if c.agenda = [] then { c with agenda := [(0, .perform command)] } else c
  | .fire now =>
    if c.agenda = [] ∧ c.reactor.feed.isDue now then { c with agenda := [(0, .perform .flush)] }
    else c
  | .work clock? => c.work clock?

def run (c : Course) (moves : List Move) : Course :=
  moves.foldl step c

/-- What a piece of work hands out on account of a swap. -/
def handout? (swap : Nat) : Nat × Task → Option (Nat × Batch)
  | (n, .deliver watcher batch) => if n = swap then some (watcher, batch) else none
  | _ => none

/-- What is still to be handed out on account of a swap, in order. -/
def outstanding (agenda : List (Nat × Task)) (swap : Nat) : List (Nat × Batch) :=
  agenda.filterMap (handout? swap)

end Course

end Packwright.Reactor
