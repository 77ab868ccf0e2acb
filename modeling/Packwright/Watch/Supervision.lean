import Packwright.Watch.Run

/-!
# Who waits for a watch

A watch goes on until its worker or its compilation is over. Whoever waits for them is woken then,
ends what is still going on, and comes to the same end.

* `step` is what one occurrence does, `run` what a whole run of them does: a move of the watch, the
  end of the compilation, or the waking of who waits.
* The compiler writes and reports as long as its compilation goes on, and the watch moves whether
  somebody waits for it or not.
-/

namespace Packwright.Watch

/-- The compilation that feeds a watch. -/
inductive Compilation where
  | working
  | ended (result : Except Failure Unit)
  | stopped

/-- Ends a compilation that still goes on. -/
def Compilation.stop : Compilation → Compilation
  | working => stopped
  | c => c

/-- Whether a compilation goes on. -/
def Compilation.isWorking : Compilation → Bool
  | working => true
  | _ => false

/-- What can happen to a watch that is waited for. -/
inductive Occurrence where
  | move (m : Move)
  | compilerEnds (result : Except Failure Unit)
  /-- Who waits is woken, and hears of the worker first or of the compilation. -/
  | wake (workerFirst : Bool)

/-- Whether a move is the compiler's. -/
def Move.isCompilers : Move → Bool
  | write .. | report _ => true
  | _ => false

/-- Whether a move ends the watch. -/
def Move.isStop : Move → Bool
  | stop _ => true
  | _ => false

/-- A watch, its compilation, and what came of the waiting. -/
structure Supervision where
  watch : Run
  compilation : Compilation
  result? : Option (Except Failure Unit)

namespace Supervision

def initial (s : Session) (debounce now : Nat) : Supervision :=
  ⟨.initial s debounce now, .working, none⟩

/-- What has come of the worker and of the compilation, as far as they are over. -/
def endings (t : Supervision) (workerFirst : Bool) : List (Except Failure Unit) :=
  let worker := match t.watch.worker with
    | .ended _ result => [result]
    | _ => []
  let compilation := match t.compilation with
    | .ended result => [result]
    | _ => []
  if workerFirst then worker ++ compilation else compilation ++ worker

/-- The first failure, if there is one. -/
def firstFailure : List (Except Failure Unit) → Except Failure Unit
  | [] => .ok ()
  | .error e :: _ => .error e
  | .ok _ :: rest => firstFailure rest

/-- Who waits is woken when something is over: what still goes on is ended, and a failure is passed
on. -/
def wake (t : Supervision) (workerFirst : Bool) : Supervision :=
  match t.result?, t.endings workerFirst with
  | none, first :: others =>
    { watch := t.watch.stop (.ok ())
      compilation := t.compilation.stop
      result? := some (firstFailure (first :: others)) }
  | _, _ => t

/-- What one occurrence does. A watch is ended by who waits for it only. -/
def step (c : Coordinator) (t : Supervision) : Occurrence → Supervision
  | .move m =>
    if m.isStop || m.isCompilers && !t.compilation.isWorking then t
    else { t with watch := t.watch.step c m }
  | .compilerEnds result =>
    if t.compilation.isWorking then { t with compilation := .ended result } else t
  | .wake workerFirst => t.wake workerFirst

def run (c : Coordinator) (t : Supervision) (occurrences : List Occurrence) : Supervision :=
  occurrences.foldl (step c) t

end Supervision

end Packwright.Watch
