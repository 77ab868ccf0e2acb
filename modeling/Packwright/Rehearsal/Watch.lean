import Packwright.Rehearsal.Engines
import Packwright.Watch.Start

/-!
# Rehearsing a watch

A watch whose engines follow a script. Time passes only when it is told to.

* Batches wait in a queue and are processed one at a time. A batch that fails ends the watch, and
  the batches behind it are not processed.
* The watch also ends when the compiler does.
-/

namespace Packwright.Rehearsal

/-- A watch: what was started, the batches that wait, and how it has ended. -/
structure Watching where
  started? : Option Watch.Started
  queue : List Batch
  ended? : Option (Except Failure Unit)
  state : State
  deriving Inhabited

namespace Watching

def isRunning (w : Watching) : Bool :=
  w.ended?.isNone

def finish (w : Watching) (result : Except Failure Unit) : Watching :=
  { w with ended? := w.ended?.orElse fun _ => some result }

/-- Processes batches in turn until one fails. -/
def work (c : Watch.Coordinator) : List Batch → State → Except Failure Unit × State
  | [], s => (.ok (), s)
  | batch :: rest, s =>
    match Job.run engines (c.process batch) s with
    | (.error e, s) => (.error e, s)
    | (.ok _, s) => work c rest s

/-- Processes the batches that wait, if the watch goes on. -/
def settle (w : Watching) : Watching :=
  match w.started?, w.ended? with
  | some started, none =>
    let (result, s) := work started.coordinator w.queue w.state
    let w := { w with queue := [], state := s }
    match result with
    | .ok _ => w
    | .error e => w.finish (.error e)
  | _, _ => w

/-- Starts a watch at time zero. -/
def start (config : Config) (plugins : Build.EnginePlugins) (entries extra : List FilePath)
    (s : State) : Watching :=
  let s : State := ({ s.1 with clock? := some 0 }, s.2)
  match Job.run engines (Watch.start config plugins entries extra) s with
  | (.error e, s) => ⟨none, [], some (.error e), s⟩
  | (.ok started, s) =>
    let (session, batches) := Watch.attach s.1
    let (result, s) := begin started.request (session, s.2)
    let w : Watching := ⟨some started, batches, none, s⟩
    match result with
    | .ok _ => w.settle
    | .error e => w.finish (.error e)

/-- Lets time pass. -/
def advance (w : Watching) (ms : Nat) : Watching :=
  let w := w.settle
  let now := w.state.1.clock?.getD 0 + ms
  let (session, batches) := Watch.fire w.state.1 now
  { w with queue := w.queue ++ batches, state := (session, w.state.2) }.settle

/-- Lets the compiler do something. -/
def act (w : Watching) (actions : List CompilerAction) : Except Failure Unit × Watching :=
  match w.started? with
  | none => (.ok (), w)
  | some started =>
    let (result, s) := performAll started.request actions w.state
    (result, { w with state := s })

end Watching

end Packwright.Rehearsal
