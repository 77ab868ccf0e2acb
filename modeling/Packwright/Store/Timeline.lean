import Packwright.Store.Feed

/-!
# Writes in the course of time

A feed whose clock runs, written to at times that never go back. The timer fires by itself when its
time comes.

* `Feed.play` plays some writes; it yields what is handed out, and when.
* `Store.changes` picks the writes that change what is stored. A source map is no change, and
  neither is the content that is stored already.
* `bursts` cuts the changes where nothing has changed for as long as a feed waits.
-/

namespace Packwright

/-- A write, and when it is made. -/
structure TimedWrite where
  time : Nat
  path : String
  content : String
  deriving Repr, DecidableEq

/-- When a path has changed; the path is in normal form. -/
structure Change where
  time : Nat
  path : String
  deriving Repr, DecidableEq

/-- A batch that is handed to a watcher, and when. -/
structure Handout (ω : Type) where
  time : Nat
  watcher : ω
  batch : Batch
  deriving Repr, DecidableEq

namespace Feed

variable {ω : Type}

/-- Lets time pass. A timer whose time comes fires then, and not later. -/
def elapse (f : Feed ω) (now : Nat) : Feed ω × List (Handout ω) :=
  match f.due? with
  | none => (f, [])
  | some due =>
    if due ≤ now then
      let (f, deliveries) := f.fire due
      (f, deliveries.map fun (w, batch) => ⟨due, w, batch⟩)
    else (f, [])

/-- What is handed out up to a time while some writes are made. A timer that is due when a write is
made fires before it. -/
def play (f : Feed ω) : List TimedWrite → (now : Nat) → List (Handout ω)
  | [], now => (f.elapse now).2
  | w :: rest, now =>
    let (f, handouts) := f.elapse w.time
    handouts ++ (f.write (some w.time) w.path w.content).play rest now

end Feed

/-- The changes that some writes make, one after the other. -/
def Store.changes (s : Store) : List TimedWrite → List Change
  | [] => []
  | w :: rest =>
    let later := (s.write w.path w.content).changes rest
    if s.isChange w.path w.content then ⟨w.time, Path.normalize w.path⟩ :: later else later

/-- Whether a change follows another one within a window. -/
def Change.isSoon (window : Nat) (earlier later : Change) : Bool :=
  later.time < earlier.time + window

/-- The longest stretches of changes in which each one follows the one before within a window. -/
def bursts (window : Nat) (changes : List Change) : List (List Change) :=
  changes.splitBy (Change.isSoon window)

/-- What is handed out for a burst up to a time: the paths that have changed, in the order in which
they did so first, a window after the last change. -/
def handoutsOf {ω : Type} (window : Nat) (watchers : List ω) (now : Nat) (burst : List Change) :
    List (Handout ω) :=
  match burst.getLast? with
  | none => []
  | some last =>
    if last.time + window ≤ now then
      watchers.map fun w => ⟨last.time + window, w, (burst.map Change.path).eraseDups⟩
    else []

end Packwright
