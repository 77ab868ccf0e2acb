import Packwright.Store.Basic

/-!
# Batches of changes

A feed is a store with watchers. Changes are handed out in batches: a batch is due a fixed time
after the last change, every change putting it off, and it goes to every watcher.

* Times are natural numbers; without a running clock no batch ever becomes due.
* `flush` takes the pending paths at once and withdraws the timer. It hands out nothing when
  nothing is pending.
* `fire` flushes if the time has come.
-/

namespace Packwright

/-- A list of changed paths that is handed out as a whole. -/
abbrev Batch := List String

/-- A store, who is told of its changes, when the next batch is due, and how long changes are
collected. -/
structure Feed (ω : Type) where
  store : Store
  watchers : List ω
  due? : Option Nat
  debounce : Nat
  deriving Repr, DecidableEq, Inhabited

namespace Feed

variable {ω : Type}

def empty (debounce : Nat) : Feed ω := ⟨.empty, [], none, debounce⟩

/-- Writes to the store. A change that somebody watches sets the timer anew. -/
def write (f : Feed ω) (clock? : Option Nat) (path content : String) : Feed ω :=
  let changed := f.store.isChange path content
  let store := f.store.write path content
  let due? := if changed && !f.watchers.isEmpty then clock?.map (· + f.debounce) else f.due?
  { f with store := store, due? := due? }

section Write

variable (f : Feed ω) (clock? : Option Nat) (path content : String)

@[simp] theorem store_write : (f.write clock? path content).store = f.store.write path content := by
  simp only [write]

@[simp] theorem watchers_write : (f.write clock? path content).watchers = f.watchers := by
  simp only [write]

@[simp] theorem debounce_write : (f.write clock? path content).debounce = f.debounce := by
  simp only [write]

theorem due?_write : (f.write clock? path content).due? =
    if f.store.isChange path content && !f.watchers.isEmpty then clock?.map (· + f.debounce)
    else f.due? := by
  simp only [write]

end Write

/-- Takes the pending paths as a batch; yields who is to be handed which batch. -/
def flush (f : Feed ω) : Feed ω × List (ω × Batch) :=
  match f.store.pending with
  | [] => ({ f with due? := none }, [])
  | batch => ({ f with store := f.store.settle, due? := none }, f.watchers.map fun w => (w, batch))

theorem flush_of_nil {f : Feed ω} (h : f.store.pending = []) :
    f.flush = ({ f with due? := none }, []) := by
  rw [flush, h]

theorem flush_of_ne {f : Feed ω} (h : f.store.pending ≠ []) :
    f.flush = ({ f with store := f.store.settle, due? := none },
      f.watchers.map fun w => (w, f.store.pending)) := by
  unfold flush
  split
  · exact absurd ‹_› h
  · rfl

def isDue (f : Feed ω) (now : Nat) : Bool :=
  f.due?.any fun due => due ≤ now

def fire (f : Feed ω) (now : Nat) : Feed ω × List (ω × Batch) :=
  if f.isDue now then f.flush else (f, [])

def watch (f : Feed ω) (w : ω) : Feed ω :=
  { f with watchers := f.watchers ++ [w] }

end Feed

end Packwright
