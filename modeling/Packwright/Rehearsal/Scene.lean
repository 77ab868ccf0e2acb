import Packwright.Channel.Basic
import Packwright.Rehearsal.Actor

/-!
# Playing a channel

A channel with a played engine at its other end. The engine is started by the first request, and
again by the first request after it has been closed.

* `listen` takes every line that the engine has printed, also those that it prints in reply to the
  host. It ends because the scripts do.
* `request` asks and listens; a request that is not settled then is never settled.
-/

namespace Packwright.Rehearsal

/-- One side of a channel: the command of its engine, and the number of the engine once started. -/
structure Client (σ : Type) where
  command : List String
  channel : Channel σ
  actor? : Option Nat
  deriving Inhabited

def Client.ofCommand {σ : Type} (command : List String) : Client σ :=
  ⟨command, .idle, none⟩

/-- A client, the stage of its engine, and the state of the host. -/
structure Scene (σ : Type) where
  client : Client σ
  stage : Stage
  host : σ
  deriving Inhabited

/-- A request that has been made: its id, and its ticket unless it could not be sent. -/
structure Asked where
  id : String
  ticket : Except Failure Nat

namespace Scene

variable {σ : Type}

def onChannel (s : Scene σ) (change : Channel σ → Channel σ) : Scene σ :=
  { s with client := { s.client with channel := change s.client.channel } }

def start (s : Scene σ) : Scene σ :=
  match s.client.actor? with
  | some _ => s
  | none =>
    let (n, stage) := s.stage.start s.client.command
    { s with client := { s.client with actor? := some n }, stage := stage }.onChannel .connect

def send (s : Scene σ) (line : String) : Except Failure Unit × Scene σ :=
  match s.client.actor? with
  | none => (.error (.engine .notRunning), s)
  | some n =>
    match s.stage.send n line with
    | (true, stage) => (.ok (), { s with stage := stage })
    | (false, stage) => (.error .closedPipe, { s with stage := stage })

def nextId (s : Scene σ) : String × Scene σ :=
  let (id, channel) := s.client.channel.nextId
  (id, s.onChannel fun _ => channel)

/-- Registers a request and sends it. One that cannot be sent is over at once. -/
def ask (s : Scene σ) (e : Errand σ) : Asked × Scene σ :=
  let s := s.start
  let (id, channel) := s.client.channel.chooseId e.id?
  let (ticket, channel) := channel.register id e.handlers
  let s := s.onChannel fun _ => channel
  match s.send (HostMessage.request id e.method e.params).toLine with
  | (.ok _, s) => (⟨id, .ok ticket⟩, s)
  | (.error e, s) => (⟨id, .error e⟩, s.onChannel fun c => c.release id)

/-- Replies to the engine. When it does not take the reply, it is listened to no more. -/
def replyWith (s : Scene σ) (m : HostMessage) : Scene σ :=
  match s.send m.toLine with
  | (.ok _, s) => s
  | (.error _, s) => s.onChannel fun c => c.fall .inputClosed

/-- Takes a line from the engine, if it is listened to; yields nothing when there is nothing to
take. -/
def hear (s : Scene σ) : Option (Scene σ) :=
  match s.client.actor?, s.client.channel.hearing with
  | some n, .listening =>
    match s.stage.hear n with
    | (.silence, _) => none
    | (.ended, stage) => some ({ s with stage := stage }.onChannel fun c => c.fall .exited)
    | (.line line, stage) =>
      let (channel, reply?, host) := s.client.channel.hear line s.host
      let s : Scene σ := { s with stage := stage, host := host }.onChannel fun _ => channel
      match reply? with
      | none => some s
      | some m => some (s.replyWith m)
  | _, _ => none

/-- Takes lines from the engine, with explicit fuel. -/
def listenFor : (fuel : Nat) → Scene σ → Scene σ
  | 0, s => s
  | fuel + 1, s =>
    match s.hear with
    | none => s
    | some s => listenFor fuel s

/-- Takes all lines from the engine. Each of them takes a character away from what the engines may
still print, but for the end of the output, which is heard once. -/
def listen (s : Scene σ) : Scene σ :=
  listenFor (s.stage.remaining + 1) s

/-- Ends a request: yields how it was settled. -/
def finish (s : Scene σ) (a : Asked) : Except Failure Value × Scene σ :=
  match a.ticket with
  | .error e => (.error e, s)
  | .ok ticket =>
    let result := match s.client.channel.outcome? ticket with
      | none => .error .stalled
      | some outcome => outcome.mapError .engine
    (result, s.onChannel fun c => c.release a.id)

/-- Closes the engine; yields whether it had to be killed. -/
def close (s : Scene σ) : Bool × Scene σ :=
  match s.client.actor? with
  | none => (false, s.onChannel .disconnect)
  | some n =>
    let (killed, stage) := s.stage.close n
    (killed, { s with
      client := { s.client with actor? := none }, stage := stage }.onChannel .disconnect)

def closed (s : Scene σ) : Scene σ :=
  s.close.2

/-! ## Several requests at once -/

def askAll (s : Scene σ) : List (Errand σ) → List Asked × Scene σ
  | [] => ([], s)
  | e :: rest =>
    let (first, s) := s.ask e
    let (others, s) := s.askAll rest
    (first :: others, s)

def finishAll (s : Scene σ) : List Asked → List (Except Failure Value) × Scene σ
  | [] => ([], s)
  | a :: rest =>
    let (first, s) := s.finish a
    let (others, s) := s.finishAll rest
    (first :: others, s)

/-- Asks all before it listens. -/
def gather (s : Scene σ) (errands : List (Errand σ)) :
    List (Except Failure Value) × Scene σ :=
  let (asked, s) := s.askAll errands
  s.listen.finishAll asked

/-- Asks all, listens, and closes the engine. -/
def gatherAndClose (s : Scene σ) (errands : List (Errand σ)) :
    List (Except Failure Value) × Scene σ :=
  let (asked, s) := s.askAll errands
  s.listen.closed.finishAll asked

def request (s : Scene σ) (e : Errand σ) : Except Failure Value × Scene σ :=
  let (asked, s) := s.ask e
  s.listen.finish asked

end Scene

end Packwright.Rehearsal
