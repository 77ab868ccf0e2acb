import Packwright.Watch.Start

/-!
# A watch at work

What can happen in a watch, in any order and as often as it likes: the compiler writes, the timer
fires, the worker takes a batch and goes on with it piece by piece.

* `Coordinator.acts` is what a batch asks for, one act after the other. Between two pieces of an
  act anything may happen, also to the paths of the batch.
* `step` is what one move does, `run` what a whole run of them does. A move that is not possible
  changes nothing.
* The history tells what has happened, newest first. It is kept for its own sake: no move reads it.
-/

namespace Packwright.Watch

/-- What is done for a batch. -/
inductive Act where
  | writeThrough (path : String)
  | announce
  | rebuild (u : BuildUnit)
  | conclude (batch : Batch) (direct : List String) (dirty : List BuildUnit)

namespace Coordinator

/-- Does one act; yields the units that were bundled anew. -/
def perform (c : Coordinator) : Act → Job (List BuildUnit)
  | .writeThrough path => do
    writeThrough path
    pure []
  | .announce => do
    enter .rebuilding
    Job.modify fun s => s.info ("Bundling " ++ ", ".intercalate (c.units.map BuildUnit.label))
    pure []
  | .rebuild u => do
    let ok ← c.rebuild u
    pure (if ok then [u] else [])
  | .conclude batch direct dirty => do
    Job.modify fun s => s.info "Bundling done."
    Job.record "watch_batch" none true none (outcome batch direct dirty)
    enter .idle
    pure []

/-- Does some acts in turn. -/
def performAll (c : Coordinator) : List Act → Job (List BuildUnit)
  | [] => pure []
  | act :: rest => do
    let first ← c.perform act
    let others ← c.performAll rest
    pure (first ++ others)

/-- What a batch asks for: files are written through first, then dirty units are bundled anew. -/
def acts (batch : Batch) (direct : List String) (dirty : List BuildUnit) : List Act :=
  direct.map .writeThrough ++ .announce :: dirty.map .rebuild ++ [.conclude batch direct dirty]

end Coordinator

/-- Who takes batches from the queue. It may end with a batch in its hands. -/
inductive Worker where
  | absent
  | idle
  | busy (batch : Batch) (job : Job (List BuildUnit)) (rest : List Act)
  | ended (batch? : Option Batch) (result : Except Failure Unit)

/-- The batch that a worker has taken and not finished. -/
def Worker.batch? : Worker → Option Batch
  | absent | idle => none
  | busy batch .. => some batch
  | ended batch? _ => batch?

/-- Whether a worker goes on when there is something to do. -/
def Worker.isWorking : Worker → Bool
  | idle | busy .. => true
  | absent | ended .. => false

/-- What a history tells of. -/
inductive Happening where
  | changed (path : String)
  | flushed (batch : Batch)
  | taken (batch : Batch)
  | attempted (u : BuildUnit)
  | finished (batch : Batch)

namespace Happening

/-- The batch that was handed out. -/
def flushed? : Happening → Option Batch
  | flushed batch => some batch
  | _ => none

/-- The batch that was taken. -/
def taken? : Happening → Option Batch
  | taken batch => some batch
  | _ => none

/-- The batch that was finished. -/
def finished? : Happening → Option Batch
  | finished batch => some batch
  | _ => none

end Happening

/-- What can happen in a watch. -/
inductive Move where
  /-- The compiler writes. -/
  | write (path content : String)
  | report (d : Diagnostic)
  | warn (request : BundleRequest) (w : BundleWarning)
  /-- Time passes. -/
  | wait (ms : Nat)
  /-- The timer fires, if its time has come. -/
  | fire
  /-- The coordinator is attached, and its worker starts. -/
  | begin
  /-- The worker takes a batch from the queue. -/
  | take
  /-- The worker goes on; what it asks is answered. -/
  | work (answers : (q : Question) → Except Failure q.Answer)
  /-- The watch ends, because the compiler does or is interrupted. -/
  | stop (result : Except Failure Unit)

/-- A watch: the session, the batches that wait, the worker, and what has happened. -/
structure Run where
  session : Session
  queue : List Batch
  worker : Worker
  history : List Happening

namespace Run

/-- Before the coordinator is attached: the compiler has a clock and an empty store. -/
def initial (s : Session) (debounce now : Nat) : Run :=
  ⟨{ s with feed := .empty debounce, clock? := some now }, [], .absent, []⟩

def text? (t : Run) (path : String) : Option String :=
  t.session.store.files.get? path

def isAttached (t : Run) : Bool :=
  !t.session.feed.watchers.isEmpty

/-- Puts batches that were handed out into the queue. -/
def enqueue (t : Run) (session : Session) (batches : List Batch) : Run :=
  { t with
    session := session
    queue := t.queue ++ batches
    history := batches.reverse.map .flushed ++ t.history }

/-- The compiler writes. -/
def write (t : Run) (path content : String) : Run :=
  { t with
    session := t.session.write path content
    history :=
      if t.session.store.isChange path content then .changed (Path.normalize path) :: t.history
      else t.history }

/-- The coordinator is attached, once. -/
def begin (t : Run) : Run :=
  match t.worker with
  | .absent =>
    let (session, batches) := attach t.session
    { t.enqueue session batches with worker := .idle }
  | _ => t

/-- The timer fires, if its time has come. -/
def fire (t : Run) : Run :=
  let (session, batches) := Watch.fire t.session (t.session.clock?.getD 0)
  t.enqueue session batches

/-- The worker takes a batch, if it is idle and there is one. A path that belongs to nothing is
fatal. -/
def take (c : Coordinator) (t : Run) : Run :=
  match t.worker, t.queue with
  | .idle, batch :: rest => { t with
      session := { t.session with phase := .flushing }
      queue := rest
      worker :=
        match c.classify batch with
        | .error e => .ended (some batch) (.error e)
        | .ok (direct, dirty) => .busy batch (.done (.ok [])) (Coordinator.acts batch direct dirty)
      history := .taken batch :: t.history }
  | _, _ => t

/-- What is told of an act that starts. -/
def tell (history : List Happening) : Act → List Happening
  | .rebuild u => .attempted u :: history
  | _ => history

/-- The worker goes on with a batch: it resumes its act, or starts the next one, or is done with
the batch. A failure is fatal. -/
def work (c : Coordinator) (t : Run) (answers : (q : Question) → Except Failure q.Answer) : Run :=
  match t.worker with
  | .busy batch (.done (.error e)) _ => { t with worker := .ended (some batch) (.error e) }
  | .busy batch (.done (.ok _)) [] => { t with
      worker := .idle
      history := .finished batch :: t.history }
  | .busy batch (.done (.ok _)) (act :: rest) => { t with
      worker := .busy batch (c.perform act) rest
      history := tell t.history act }
  | .busy batch job rest =>
    let (job, session) := job.resume answers t.session
    { t with session := session, worker := .busy batch job rest }
  | _ => t

/-- The watch ends. -/
def stop (t : Run) (result : Except Failure Unit) : Run :=
  match t.worker with
  | .ended .. => t
  | worker => { t with worker := .ended worker.batch? result }

/-- What one move does. -/
def step (c : Coordinator) (t : Run) : Move → Run
  | .write path content => t.write path content
  | .report d => { t with session := t.session.report d }
  | .warn r w => { t with session := t.session.warn r w }
  | .wait ms => { t with session := { t.session with clock? := t.session.clock?.map (· + ms) } }
  | .fire => t.fire
  | .begin => t.begin
  | .take => t.take c
  | .work answers => t.work c answers
  | .stop result => t.stop result

def run (c : Coordinator) (t : Run) (moves : List Move) : Run :=
  moves.foldl (step c) t

def flushed (t : Run) : List Batch :=
  t.history.reverse.filterMap Happening.flushed?

def taken (t : Run) : List Batch :=
  t.history.reverse.filterMap Happening.taken?

def finished (t : Run) : List Batch :=
  t.history.reverse.filterMap Happening.finished?

end Run

end Packwright.Watch
