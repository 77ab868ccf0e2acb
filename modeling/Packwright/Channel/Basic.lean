import Packwright.Channel.Message

/-!
# Channels to an engine

Many requests share one engine. Each is registered under an id and holds a ticket; the answer that
names the id settles the ticket, and a ticket is settled once. While a request is registered, the
engine may call what the request lends it.

* `heed` takes what the engine says: it settles a request, or replies to a call, or does nothing.
  `hear` understands a line first.
* A channel that has heard the end, or something that is not a document, listens no more; what is
  registered then fails, but what is registered later waits in vain.
* `release` ends a request; until then calls that name it are answered, settled or not.
-/

namespace Packwright

/-- What the host does when an engine calls it. A handler may change the state of the host whether
or not it succeeds. -/
abbrev Handler (σ : Type) : Type := Value.Fields → σ → Except Failure Value × σ

abbrev Handlers (σ : Type) : Type := Dictionary String (Handler σ)

/-- What is asked: a method with its parameters, and what the engine may call. The channel chooses
an id where none is given, or an empty one. -/
structure Errand (σ : Type) where
  id? : Option String
  method : String
  params : Value.Fields
  handlers : Handlers σ
  deriving Inhabited

structure OpenRequest (σ : Type) where
  ticket : Nat
  handlers : Handlers σ
  deriving Inhabited

/-- Whether there is an engine, and whether it is listened to. -/
inductive Hearing where
  | disconnected
  | listening
  | deaf
  deriving Repr, DecidableEq, Inhabited

/-- A channel: how many ids and tickets it has given out, what is registered, and how tickets were
settled, in that order. -/
structure Channel (σ : Type) where
  hearing : Hearing
  ids : Nat
  tickets : Nat
  registered : Dictionary String (OpenRequest σ)
  settled : Dictionary Nat (Except EngineError Value)
  deriving Inhabited

namespace EngineError

def exited : EngineError := ⟨"ENGINE_EXITED", "Engine process exited unexpectedly."⟩

def inputClosed : EngineError := ⟨"ENGINE_EXITED", "Engine stdin closed."⟩

def closed : EngineError := ⟨"ENGINE_CLOSED", "Engine process was closed."⟩

def notRunning : EngineError := ⟨"ENGINE_NOT_RUNNING", "Engine process is not running."⟩

def garbled : EngineError := ⟨"INVALID_JSON", "Engine sent a line that is not JSON."⟩

def unknownCallback (name : Value) : EngineError :=
  ⟨"UNKNOWN_CALLBACK", "Unknown callback: " ++ name.display⟩

def callbackFailed (cause : Failure) : EngineError := ⟨"CALLBACK_FAILED", cause.message⟩

end EngineError

namespace Channel

variable {σ : Type}

def idle : Channel σ := ⟨.disconnected, 0, 0, [], []⟩

def connect (c : Channel σ) : Channel σ :=
  { c with hearing := .listening }

/-! ## Requests -/

/-- The id of a number, of six digits at least. -/
def idText (n : Nat) : String :=
  let digits := toString n
  "req-" ++ String.ofList (List.replicate (6 - digits.length) '0') ++ digits

def nextId (c : Channel σ) : String × Channel σ :=
  (idText (c.ids + 1), { c with ids := c.ids + 1 })

/-- The id for what is asked. -/
def chooseId (c : Channel σ) (id? : Option String) : String × Channel σ :=
  match id? with
  | some id => if id.isEmpty then c.nextId else (id, c)
  | none => c.nextId

/-- Registers a request; it takes the place of one with the same id. -/
def register (c : Channel σ) (id : String) (handlers : Handlers σ) : Nat × Channel σ :=
  (c.tickets, { c with
    tickets := c.tickets + 1
    registered := c.registered.put id ⟨c.tickets, handlers⟩ })

def release (c : Channel σ) (id : String) : Channel σ :=
  { c with registered := c.registered.erase id }

def outcome? (c : Channel σ) (ticket : Nat) : Option (Except EngineError Value) :=
  c.settled.get? ticket

/-- Settles a ticket, unless it is settled. -/
def settle (c : Channel σ) (ticket : Nat) (outcome : Except EngineError Value) : Channel σ :=
  if c.settled.has ticket then c else { c with settled := c.settled.put ticket outcome }

/-- Fails everything that is registered. -/
def failAll (c : Channel σ) (e : EngineError) : Channel σ :=
  c.registered.values.foldl (fun c r => c.settle r.ticket (.error e)) c

/-! ## The engine -/

def fall (c : Channel σ) (e : EngineError) : Channel σ :=
  { c.failAll e with hearing := .deaf }

def disconnect (c : Channel σ) : Channel σ :=
  { c.failAll .closed with hearing := .disconnected }

/-- Settles the request that an answer names, if there is one. -/
def complete (c : Channel σ) (id : String) (outcome : Except EngineError Value) : Channel σ :=
  match c.registered.get? id with
  | none => c
  | some r => c.settle r.ticket outcome

/-- What answers a call: a handler of the request that it names, and the parameters for it. -/
def handlerOf (c : Channel σ) (call : Call) : Option (Handler σ × Value.Fields) := do
  let request ← c.registered.get? call.request
  let name ← call.name.text?
  let handler ← request.handlers.get? name
  let params ← call.params?
  pure (handler, params)

def reply (c : Channel σ) (call : Call) (s : σ) : HostMessage × σ :=
  match c.handlerOf call with
  | none => (.refusal call.id (.unknownCallback call.name), s)
  | some (handler, params) =>
    match handler params s with
    | (.ok result, s) => (.result call.id result, s)
    | (.error cause, s) => (.refusal call.id (.callbackFailed cause), s)

/-- Takes what the engine says; yields what is to be sent back. -/
def heed (c : Channel σ) (message : Message) (s : σ) : Channel σ × Option HostMessage × σ :=
  match message with
  | .call call => let (message, s) := c.reply call s; (c, some message, s)
  | .answer id outcome => (c.complete id outcome, none, s)
  | .nothing => (c, none, s)
  | .garbled => (c.fall .garbled, none, s)
  | .unreadable => ({ c with hearing := .deaf }, none, s)

def hear (c : Channel σ) (line : List Char) (s : σ) : Channel σ × Option HostMessage × σ :=
  c.heed (Message.ofLine line) s

end Channel

end Packwright
