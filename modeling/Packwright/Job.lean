import Packwright.Session

/-!
# Jobs

A job is a piece of a build: it looks at the session, changes it, and asks the engines. Until an
engine has answered, a job waits; what happens meanwhile is not its affair. So the same job can be
run by itself with engines that answer at once, or next to others.

* `Job.run` runs a job with engines that answer at once.
* `Job.resume` takes a job one piece further, so that something else may happen between the pieces.
* A failure ends a job; what it has changed stays changed.
-/

namespace Packwright

/-- What a job asks an engine. -/
inductive Question where
  | compile (request : CompileRequest)
  | bundle (request : BundleRequest)
  | generate (build : String) (request : BundleRequest) (options : OutputOptions)

abbrev Question.Answer : Question → Type
  | compile _ => CompileResult
  | bundle _ => String
  | generate .. => List Artifact

/-- A piece of a build. -/
inductive Job (α : Type) where
  | done (result : Except Failure α)
  | look (next : Session → Job α)
  | put (session : Session) (next : Job α)
  | ask (question : Question) (next : Except Failure question.Answer → Job α)

namespace Job

variable {α β : Type}

def andThen : Job α → (Except Failure α → Job β) → Job β
  | done result, next => next result
  | look f, next => look fun s => andThen (f s) next
  | put s job, next => put s (andThen job next)
  | ask q f, next => ask q fun a => andThen (f a) next

/-- Goes on after a job that has succeeded. -/
def bind (job : Job α) (next : α → Job β) : Job β :=
  job.andThen fun
    | .ok a => next a
    | .error e => done (.error e)

instance : Monad Job where
  pure a := done (.ok a)
  bind := bind

def fail (e : Failure) : Job α :=
  done (.error e)

def session : Job Session :=
  look fun s => pure s

def modify (change : Session → Session) : Job Unit :=
  look fun s => put (change s) (pure ())

def lift (x : Except Failure α) : Job α :=
  done x

/-- Changes the disk. -/
def onDisk (change : Disk → Except Disk.Error Disk) : Job Unit :=
  look fun s =>
    match change s.disk with
    | .ok disk => put { s with disk := disk } (pure ())
    | .error e => fail (.disk e)

def request (q : Question) : Job q.Answer :=
  ask q done

def attempt (job : Job α) : Job (Except Failure α) :=
  job.andThen fun result => done (.ok result)

/-! ## What jobs do -/

/-- Writes a file, in a directory that is made if it is missing. -/
def writeText (path : FilePath) (content : String) : Job Unit := do
  onDisk fun d => d.makeDirectories path.parent
  onDisk fun d => d.write path (Text.Utf8.encode content)

/-- Writes an event to the log, if there is one. -/
def record (kind : String) (unit? : Option String) (ok : Bool) (error? : Option String)
    (metadata : Value.Fields) : Job Unit :=
  look fun s =>
    match s.append (s.stampEvent kind unit? ok error? metadata) with
    | .ok s => put s (pure ())
    | .error e => fail (.disk e)

/-! ## Running -/

/-- Engines that answer at once; they have a state of their own and may change the session. -/
def Engines (σ : Type) : Type :=
  (q : Question) → Session × σ → Except Failure q.Answer × (Session × σ)

/-- Runs a job with engines that answer at once. -/
def run {σ : Type} (engines : Engines σ) : Job α → Session × σ → Except Failure α × (Session × σ)
  | done result, s => (result, s)
  | look f, s => run engines (f s.1) s
  | put session job, s => run engines job (session, s.2)
  | ask q f, s =>
    let (answer, s) := engines q s
    run engines (f answer) s

/-! ## Running piece by piece -/

/-- Makes the changes that a job has ready, up to where it looks at the session again, asks, or is
done. -/
def settle : Job α → Session → Job α × Session
  | put session job, _ => settle job session
  | job, s => (job, s)

/-- Takes a job one piece further: it looks at the session, or is given an answer, and makes the
changes that follow. -/
def resume (answers : (q : Question) → Except Failure q.Answer) :
    Job α → Session → Job α × Session
  | done result, s => (done result, s)
  | look f, s => settle (f s) s
  | put session job, _ => settle job session
  | ask q f, s => settle (f (answers q)) s

end Job

end Packwright
