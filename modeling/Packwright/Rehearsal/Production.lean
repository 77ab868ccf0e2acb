import Packwright.CommandLine.Ending
import Packwright.Rehearsal.Played
import Packwright.Watch.Start

/-!
# Playing a whole build

A build or a watch whose engines are played. Jobs that wait for the bundler wait side by side: in
each round all that the bundler has said is heard first, and then the jobs whose requests are
settled go on, in the order in which they were settled.

* `advance` runs a job until it waits or is over.
* `perform` runs jobs side by side; after the first failure, or an interruption, no further round
  begins.
* Time passes only when nothing else can happen.
-/

namespace Packwright.Rehearsal

open CommandLine (Outcome)

/-- A build in progress: the command of the compiler, the client of the bundler, the stage, and the
session. -/
structure Production where
  compiler : List String
  bundler : Client Session
  stage : Stage
  session : Session
  deriving Inhabited

/-- A job that waits for an answer of the bundler, or is over. -/
inductive Progress (α : Type) where
  | waiting (asked : Asked) (next : Except Failure Value → Job α)
  | over (result : Except Failure α)

namespace Production

variable {α : Type}

def scene (p : Production) : Scene Session :=
  ⟨p.bundler, p.stage, p.session⟩

def withScene (p : Production) (s : Scene Session) : Production :=
  { p with bundler := s.client, stage := s.stage, session := s.host }

def compile (p : Production) (r : CompileRequest) : Except Failure CompileResult × Production :=
  let (result, stage, session) := compilePlayed p.compiler (.ofRequest r) r p.stage p.session
  (result, { p with stage := stage, session := session })

/-- Asks the bundler; a request that cannot be sent fails at once. -/
def ask (p : Production) (e : Errand Session) : Except Failure Asked × Production :=
  let (asked, s) := p.scene.ask e
  (asked.ticket.map fun _ => asked, p.withScene s)

/-- What the bundler is asked to write a module graph. -/
def generateErrand (r : BundleRequest) (build : String) (o : OutputOptions) : Errand Session :=
  (BundlerHost.ofRequest r).generateErrand r build o.format o.file.toString o.sourceMaps
    o.liveBindings

/-- Runs a job until it waits or is over. -/
def advance : Job α → Production → Progress α × Production
  | .done result, p => (.over result, p)
  | .look next, p => advance (next p.session) p
  | .put session job, p => advance job { p with session := session }
  | .ask (.compile r) next, p =>
    let (result, p) := p.compile r
    advance (next result) p
  | .ask (.bundle r) next, p =>
    match p.ask ((BundlerHost.ofRequest r).bundleErrand r) with
    | (.error e, p) => advance (next (.error e)) p
    | (.ok asked, p) => (.waiting asked fun v => next (v.bind BundleRequest.buildOf), p)
  | .ask (.generate build r o) next, p =>
    match p.ask (generateErrand r build o) with
    | (.error e, p) => advance (next (.error e)) p
    | (.ok asked, p) => (.waiting asked fun v => next (v.bind Artifact.ofAnswer), p)

/-! ## Side by side -/

/-- Jobs side by side, and the first failure of one. -/
structure Company where
  jobs : List (Progress Unit)
  failed? : Option Failure

/-- What a job adds to the failures. -/
def Company.note (failed? : Option Failure) : Progress Unit → Option Failure
  | .over (.error e) => failed?.orElse fun _ => some e
  | _ => failed?

/-- Starts jobs in turn, until somebody interrupts. -/
def launch : List (Job Unit) → Company → Production → Company × Production
  | [], c, p => (c, p)
  | job :: rest, c, p =>
    if p.stage.interrupted then (c, p)
    else
      let (progress, p) := advance job p
      launch rest ⟨c.jobs ++ [progress], Company.note c.failed? progress⟩ p

/-- Whether a job waits for a ticket. -/
def waitsFor (ticket : Nat) : Progress Unit → Bool
  | .waiting asked _ => asked.ticket.toOption == some ticket
  | .over _ => false

/-- Lets a job go on with its answer. -/
def wake : Progress Unit → Production → Progress Unit × Production
  | .waiting asked next, p =>
    let (answer, s) := p.scene.finish asked
    advance (next answer) (p.withScene s)
  | .over result, p => (.over result, p)

/-- Lets the jobs whose tickets are settled go on, in the order of the tickets. -/
def wakeAll : List Nat → Company → Production → Company × Production
  | [], c, p => (c, p)
  | ticket :: rest, c, p =>
    match c.jobs.findIdx? (waitsFor ticket) with
    | none => wakeAll rest c p
    | some n =>
      let (progress, p) := wake (c.jobs[n]?.getD (.over (.ok ()))) p
      wakeAll rest ⟨c.jobs.set n progress, Company.note c.failed? progress⟩ p

/-- Plays rounds, with explicit fuel; `seen` tickets have been settled before. -/
def rounds : (fuel seen : Nat) → Company → Production → Company × Production
  | 0, _, c, p => (c, p)
  | fuel + 1, seen, c, p =>
    let p := p.withScene p.scene.listen
    let settled := p.bundler.channel.settled.keys
    if p.stage.interrupted || c.failed?.isSome || settled.length ≤ seen then (c, p)
    else
      let (c, p) := wakeAll (settled.drop seen) c p
      rounds fuel settled.length c p

/-- Whether a job still waits. -/
def isWaiting : Progress Unit → Bool
  | .waiting .. => true
  | .over _ => false

/-- What came of some jobs; a job that still waits waits in vain. -/
def Company.outcome (c : Company) (p : Production) : Outcome :=
  if p.stage.interrupted then .interrupted
  else match c.failed? with
    | some e => .failed e
    | none => if c.jobs.any isWaiting then .failed .stalled else .finished true

/-- Runs jobs side by side. Each round but the last hears a line that settles a request, so the
scripts bound the rounds. -/
def perform (jobs : List (Job Unit)) (p : Production) : Outcome × Production :=
  let seen := p.bundler.channel.settled.length
  let (c, p) := launch jobs ⟨[], none⟩ p
  let (c, p) := rounds (p.stage.remaining + 2) seen c p
  (c.outcome p, p)

/-- Closes the bundler; yields whether it had to be killed. -/
def close (p : Production) : Bool × Production :=
  let (killed, s) := p.scene.close
  (killed, p.withScene s)

/-! ## Building -/

def build (p : Production) (config : Config) (entries : List FilePath) : Outcome × Production :=
  let (progress, p) := advance (Build.prepare config .builtIn entries) p
  let (outcome, p) : Outcome × Production :=
    if p.stage.interrupted then (.interrupted, p)
    else match progress with
      | .waiting .. => (.failed .stalled, p)
      | .over (.error e) => (.failed e, p)
      | .over (.ok none) => (.finished false, p)
      | .over (.ok (some jobs)) => perform jobs p
  (outcome, p.close.2)

/-! ## Watching -/

/-- How long an engine is given to end by itself, in milliseconds. -/
def patienceMs : Nat := 2000

/-- Processes batches in turn. -/
def processAll (c : Watch.Coordinator) : List Batch → Job Unit
  | [] => pure ()
  | batch :: rest => do
    let _ ← c.process batch
    processAll c rest

/-- Lets the time come at which changes are handed out, if it comes by the end, and processes
them. -/
def processDue (p : Production) (c : Watch.Coordinator) (end? : Option Nat) :
    Outcome × Production :=
  match p.session.feed.due? with
  | none => (.finished true, p)
  | some due =>
    if end?.any (· < due) then (.finished true, p)
    else
      let (session, batches) := Watch.fire p.session due
      perform [processAll c batches] { p with session := session }

/-- What the answer of the compiler makes of a watch. -/
def outcomeOf : Except Failure Value → Outcome
  | .ok _ => .finished true
  | .error e => .failed e

/-- Whether the compiler of a watch does not end by itself. -/
def isHanging (p : Production) (compiler : Client Session) : Bool :=
  (compiler.actor?.bind fun n => p.stage.actors[n]?).any Actor.hanging

/-- Closes the compiler of a watch. -/
def closeCompiler (p : Production) (compiler : Client Session) : Production :=
  let s := Scene.closed ⟨compiler, p.stage, p.session⟩
  { p with stage := s.stage, session := s.host }

/-- Closes both engines. The compiler of a watch that has failed is not waited for, but it is closed
if there is time because the bundler is. -/
def abandon (p : Production) (compiler : Client Session) : Production :=
  match p.close with
  | (true, p) => p.closeCompiler compiler
  | (false, p) => p

/-- Plays a watch on, after the compiler has said all that it says. The watch ends with the
compiler, or when changes cannot be processed. -/
def watchOn (p : Production) (c : Watch.Coordinator) (compiler : Client Session)
    (answer? : Option (Except Failure Value)) : Outcome × Production :=
  match answer? with
  | none =>
    match p.processDue c none with
    | (.finished _, p) => (.failed .stalled, p.abandon compiler)
    | (outcome, p) => (outcome, p.abandon compiler)
  | some answer =>
    if p.isHanging compiler then
      match p.processDue c (some patienceMs) with
      | (.failed .stalled, p) => (outcomeOf answer, (p.closeCompiler compiler).close.2)
      | (.finished _, p) => (outcomeOf answer, (p.closeCompiler compiler).close.2)
      | (outcome, p) => (outcome, p.abandon compiler)
    else (outcomeOf answer, (p.closeCompiler compiler).close.2)

/-- How the request of a watch has been answered so far. -/
def answerTo (asked : Asked) (s : Scene Session) : Option (Except Failure Value) :=
  match asked.ticket with
  | .error e => some (.error e)
  | .ok ticket => (s.client.channel.outcome? ticket).map fun outcome => outcome.mapError .engine

/-- Starts the compiler of a watch and plays on. -/
def watchStarted (p : Production) (started : Watch.Started) : Outcome × Production :=
  let (session, _) := Watch.attach p.session
  let host := CompilerHost.ofRequest started.request
  let (asked, s) := Scene.ask ⟨.ofCommand p.compiler, p.stage, session⟩
    (host.errand "watch" started.request)
  let s := s.listen
  let p := { p with stage := s.stage, session := s.host }
  if p.stage.interrupted then (.interrupted, p.abandon s.client)
  else p.watchOn started.coordinator s.client (answerTo asked s)

def watch (p : Production) (config : Config) (entries extra : List FilePath) :
    Outcome × Production :=
  let p := { p with session := { p.session with clock? := some 0 } }
  match advance (Watch.start config .builtIn entries extra) p with
  | (.over (.ok started), p) => p.watchStarted started
  | (.over (.error e), p) => (.failed e, p.close.2)
  | (.waiting .., p) => (.failed .stalled, p.close.2)

end Production

end Packwright.Rehearsal
