import Packwright.Channel.Basic

/-!
# Channels in use

What can happen at a channel, in any order and as often as it likes: somebody makes a request, the
engine says something or ends its output, a reply is not taken, a caller goes, the channel is
closed.

* `Traffic` is a channel together with those who wait at it. A caller waits for one ticket; it goes
  when the ticket is settled, or because it has given up.
* `step` is what one occurrence does, `run` what a whole course of them does.
* The engine is heard only while the channel listens. `Occurrence.endsReading` lists what makes it
  stop: the end of the output, a reply that is not taken, a line that is not a document, and a line
  that cannot even be read.
-/

namespace Packwright

/-- Somebody who has made a request and waits for its ticket to be settled. -/
structure Caller where
  id : String
  ticket : Nat
  deriving Repr, DecidableEq, Inhabited

/-- What can happen at a channel. -/
inductive Occurrence (σ : Type) where
  /-- A request is made; the engine takes its line or does not. -/
  | ask (errand : Errand σ) (taken : Bool)
  /-- The engine says something. -/
  | say (message : Message)
  /-- The engine does not take a reply. -/
  | replyLost
  | outputEnds
  /-- The caller that waits for a ticket waits no more. -/
  | leave (ticket : Nat)
  | close

/-- A channel, those who wait at it, and the state of the host. -/
structure Traffic (σ : Type) where
  channel : Channel σ
  callers : List Caller
  host : σ
  deriving Inhabited

namespace Occurrence

variable {σ : Type}

/-- Whether an occurrence makes a channel that listens stop listening. -/
def endsReading : Occurrence σ → Bool
  | say .garbled | say .unreadable | replyLost | outputEnds => true
  | _ => false

/-- Whether the channel stops listening without a word to those who wait: the engine has said
something that cannot be read. -/
def endsSilently : Occurrence σ → Bool
  | say .unreadable => true
  | _ => false

/-- Whether the channel is closed. -/
def isClose : Occurrence σ → Bool
  | close => true
  | _ => false

end Occurrence

/-- The channel with an engine at its other end, a new one if there is none. -/
def Channel.connected {σ : Type} (c : Channel σ) : Channel σ :=
  if c.hearing = .disconnected then c.connect else c

namespace Traffic

variable {σ : Type}

def idle (host : σ) : Traffic σ := ⟨.idle, [], host⟩

def idFor (t : Traffic σ) (e : Errand σ) : String :=
  (t.channel.connected.chooseId e.id?).1

/-- A request is made. One whose line is not taken is over at once. -/
def ask (t : Traffic σ) (e : Errand σ) (taken : Bool) : Traffic σ :=
  let (id, c) := t.channel.connected.chooseId e.id?
  let (ticket, c) := c.register id e.handlers
  if taken then { t with channel := c, callers := t.callers ++ [⟨id, ticket⟩] }
  else { t with channel := c.release id }

/-- The engine says something, and is heard. -/
def heed (t : Traffic σ) (m : Message) : Traffic σ :=
  let (channel, _, host) := t.channel.heed m t.host
  { t with channel := channel, host := host }

/-- The caller that waits for a ticket goes, and what is registered under its id is released. -/
def leave (t : Traffic σ) (ticket : Nat) : Traffic σ :=
  match t.callers.find? fun w => w.ticket = ticket with
  | none => t
  | some w => { t with
      channel := t.channel.release w.id
      callers := t.callers.filter fun w => w.ticket ≠ ticket }

/-- What one occurrence does. -/
def step (t : Traffic σ) : Occurrence σ → Traffic σ
  | .ask e taken => t.ask e taken
  | .say m => if t.channel.hearing = .listening then t.heed m else t
  | .replyLost =>
    if t.channel.hearing = .listening then { t with channel := t.channel.fall .inputClosed } else t
  | .outputEnds =>
    if t.channel.hearing = .listening then { t with channel := t.channel.fall .exited } else t
  | .leave ticket => t.leave ticket
  | .close => { t with channel := t.channel.disconnect }

def run (t : Traffic σ) (course : List (Occurrence σ)) : Traffic σ :=
  course.foldl step t

def after (host : σ) (course : List (Occurrence σ)) : Traffic σ :=
  (idle host).run course

/-- Whether a caller waits for a ticket that is not settled. -/
def isUnanswered (t : Traffic σ) (w : Caller) : Bool :=
  (t.channel.outcome? w.ticket).isNone

/-- Whether the request of a caller is still the one that is registered under its id. -/
def isRegistered (t : Traffic σ) (w : Caller) : Bool :=
  (t.channel.registered.get? w.id).any fun r => r.ticket == w.ticket

end Traffic

end Packwright
