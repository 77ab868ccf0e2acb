import Packwright.Store.Course

/-!
# What each watcher is handed

The history of a store, read for one watcher at a time.

* `receipts` are the batches that a watcher was handed, with the numbers of the swaps that took them;
  `received` are the batches alone.
* `SwapsBetween` says that something was taken at a time when two watchers had not been handed the
  same, which is in the middle of handing something else out.
-/

namespace Packwright.Reactor

/-- What a watcher is handed by an event: the number of the swap, and the batch. -/
def Event.receipt? (watcher : Nat) : Event → Option (Nat × Batch)
  | handed swap w batch => if w = watcher then some (swap, batch) else none
  | _ => none

namespace History

/-- What a watcher was handed, and on account of which swaps, in order. -/
def receipts (h : History) (watcher : Nat) : List (Nat × Batch) :=
  h.filterMap (Event.receipt? watcher)

def received (h : History) (watcher : Nat) : List Batch :=
  (h.receipts watcher).map Prod.snd

/-- Whether a watcher has joined before anything has changed. -/
def JoinedEarly (h : History) (watcher : Nat) : Prop :=
  ∃ before after, h = before ++ after ∧ watcher < (names before).length ∧
    ∀ e ∈ before, e.changed? = none

/-- Whether something was taken while something else had been handed to one of two watchers, and not
to the other. -/
def SwapsBetween (h : History) (v w : Nat) : Prop :=
  ∃ before batch watchers after, h = before ++ .swapped batch watchers :: after ∧
    ∃ r, ¬ (r ∈ receipts before v ↔ r ∈ receipts before w)

end History

def isWrite : Command → Bool
  | .write .. => true
  | _ => false

/-- Whether those who are told to watch only ever write when they are handed a batch. -/
def OnlyWrite (moves : List Move) : Prop :=
  ∀ name reactions, .ask (.watch name reactions) ∈ moves →
    ∀ commands ∈ reactions, ∀ command ∈ commands, isWrite command = true

end Packwright.Reactor
