import Packwright.Store.Feed

/-!
# Watchers that write back

A watcher may itself write to the store, flush it or add a watcher when it is handed a batch. What
it does is given as data: one list of commands for each batch it is handed, in turn.

* Work that is left is an agenda. Commands of a watcher go in front of everything else, so a batch
  that is flushed inside a batch is handed out before the rest of the outer one.
* `run` works the agenda off with fuel; `fuelOf` is enough, since every command runs at most once
  and every flush hands out at most one batch to each watcher.
-/

namespace Packwright

/-- What can be done to a feed. A watcher is added with what it does for each batch in turn. -/
inductive Command where
  | write (path content : String)
  | flush
  | watch (name : String) (reactions : List (List Command))
  deriving Repr, Inhabited

/-- A piece of work that is left. -/
inductive Task where
  | perform (command : Command)
  | deliver (watcher : Nat) (batch : Batch)
  deriving Repr, Inhabited

/-- A watcher: its name, and what it does for the batches to come. -/
structure Watcher where
  name : String
  reactions : List (List Command)
  deriving Repr, Inhabited

/-- A feed whose watchers are known by number, and the batches handed out so far with the names of
those who were handed them. -/
structure Reactor where
  feed : Feed Nat
  watchers : List Watcher
  delivered : List (String × Batch)
  deriving Repr, Inhabited

namespace Reactor

-- sums start at the zero of the core library, whatever other instances are in scope
attribute [local instance (high)] Zero.ofOfNat0

def empty (debounce : Nat) : Reactor := ⟨.empty debounce, [], []⟩

/-- Performs a command; yields the work that it makes. -/
def perform (r : Reactor) (clock? : Option Nat) : Command → Reactor × List Task
  | .write path content => ({ r with feed := r.feed.write clock? path content }, [])
  | .flush =>
    let (feed, deliveries) := r.feed.flush
    ({ r with feed := feed }, deliveries.map fun (w, batch) => .deliver w batch)
  | .watch name reactions =>
    ({ r with
        feed := r.feed.watch r.watchers.length
        watchers := r.watchers ++ [⟨name, reactions⟩] }, [])

/-- Hands a batch to a watcher; yields the work that its reaction makes. -/
def deliver (r : Reactor) (watcher : Nat) (batch : Batch) : Reactor × List Task :=
  match r.watchers[watcher]? with
  | none => (r, [])
  | some w =>
    let r := { r with delivered := r.delivered ++ [(w.name, batch)] }
    match w.reactions with
    | [] => (r, [])
    | commands :: later =>
      ({ r with watchers := r.watchers.set watcher { w with reactions := later } },
        commands.map .perform)

/-- Does one piece of work. -/
def step (r : Reactor) (clock? : Option Nat) : Task → Reactor × List Task
  | .perform command => r.perform clock? command
  | .deliver watcher batch => r.deliver watcher batch

/-- Works an agenda off with explicit fuel, new work first. -/
def run (clock? : Option Nat) : (fuel : Nat) → Reactor → List Task → Reactor
  | 0, r, _ => r
  | _, r, [] => r
  | fuel + 1, r, task :: rest =>
    let (r, made) := r.step clock? task
    run clock? fuel r (made ++ rest)

mutual

/-- The number of commands in a command. -/
def commandCount : Command → Nat
  | .write .. => 1
  | .flush => 1
  | .watch _ reactions => countAll reactions + 1

/-- The number of commands in some lists of commands. -/
def countAll : List (List Command) → Nat
  | [] => 0
  | commands :: rest => countList commands + countAll rest

def countList : List Command → Nat
  | [] => 0
  | c :: rest => commandCount c + countList rest

end

/-- Fuel enough to perform a command and all that follows from it. -/
def fuelOf (r : Reactor) (command : Command) : Nat :=
  let commands := commandCount command + (r.watchers.map fun w => countAll w.reactions).sum
  (commands + 1) * (r.watchers.length + commands + 2)

def act (r : Reactor) (clock? : Option Nat) (command : Command) : Reactor :=
  run clock? (r.fuelOf command) r [.perform command]

def fire (r : Reactor) (now : Nat) : Reactor :=
  if r.feed.isDue now then r.act (some now) .flush else r

end Reactor

end Packwright
