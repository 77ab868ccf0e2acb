import Packwright.Channel.Traffic

/-!
# Requests under ids that the channel gives out

Who asks may leave the choice of an id to the channel, or may have drawn one before. A `Desk` is the
traffic of a channel where nobody uses any other ids.

* `Desk.step` is what one move does, `Desk.after` what a whole course of them does.
* `Message.Ends` says when a line is the last word on an id, and what it says.
* `Desk.fate` tells what becomes of a request from what is heard after it was made. It looks at no
  other request.
-/

namespace Packwright

/-! ## The last word on an id -/

namespace Message

/-- A line holds a table. -/
def Holds (line : List Char) (fields : Value.Fields) : Prop :=
  ∃ document, Text.Encoding.decodeLine? (Text.trim Text.isAsciiBlank line) = some document ∧
    Json.read (String.ofList document) = .ok (.table fields)

/-- What the error of an answer says under a key, or else a default. -/
def detail (fields : Value.Fields) (key default : String) : String :=
  match (fields.get? "error").bind fun e => e.field? key with
  | some v => v.display
  | none => default

/-- What an answer says: its result exactly if it says that all is well. -/
inductive Says (fields : Value.Fields) : Except EngineError Value → Prop where
  | result (h : fields.get? "ok" = some (.bool true)) :
    Says fields (.ok ((fields.get? "result").getD .null))
  | refusal (h : fields.get? "ok" ≠ some (.bool true)) :
    Says fields (.error ⟨detail fields "code" "ENGINE_ERROR",
      detail fields "message" "Engine request failed."⟩)

/-- A line ends the request with an id: it holds a table that calls nothing and carries that id. -/
def Ends (line : List Char) (id : String) (outcome : Except EngineError Value) : Prop :=
  ∃ fields, Holds line fields ∧ fields.get? "callback" = none ∧
    fields.get? "id" = some (.text id) ∧ Says fields outcome

end Message

/-! ## Moves -/

namespace Occurrence

variable {σ : Type}

/-- The occurrence where the channel chooses the id of a request. -/
def unnumbered : Occurrence σ → Occurrence σ
  | ask e taken => ask { e with id? := none } taken
  | o => o

/-- What is heard about a request that is registered under an id. -/
def word? (hearing : Hearing) (id : String) : Occurrence σ → Option (Except EngineError Value)
  | close => some (.error .closed)
  | say (.answer name outcome) =>
    if hearing = .listening ∧ name = id then some outcome else none
  | say .garbled => if hearing = .listening then some (.error .garbled) else none
  | replyLost => if hearing = .listening then some (.error .inputClosed) else none
  | outputEnds => if hearing = .listening then some (.error .exited) else none
  | _ => none

end Occurrence

/-- The traffic of a channel, and the ids that have been drawn from it and are not used yet. -/
structure Desk (σ : Type) where
  traffic : Traffic σ
  drawn : List String
  deriving Inhabited

namespace Desk

variable {σ : Type}

/-- What can happen at a desk. -/
inductive Move (σ : Type) where
  /-- Somebody draws an id for a request to come. -/
  | draw
  /-- A request is made under one of the ids that have been drawn. -/
  | present (place : Nat) (errand : Errand σ) (taken : Bool)
  /-- Anything else happens; a request that is made so leaves the choice of its id to the channel. -/
  | occur (o : Occurrence σ)

namespace Move

def line (line : List Char) : Move σ :=
  .occur (.say (.ofLine line))

/-- Whether the caller that waits for a ticket waits no more. -/
def leaves (ticket : Nat) : Move σ → Bool
  | occur (.leave t) => t == ticket
  | _ => false

/-- What is heard about a request that is registered under an id. -/
def word? (hearing : Hearing) (id : String) : Move σ → Option (Except EngineError Value)
  | occur o => o.word? hearing id
  | _ => none

def hearing (h : Hearing) : Move σ → Hearing
  | occur (.say .unreadable) => if h = .listening then .deaf else h
  | _ => h

end Move

def idle (host : σ) : Desk σ := ⟨.idle host, []⟩

/-- Somebody draws an id. -/
def draw (d : Desk σ) : Desk σ :=
  let (id, channel) := d.traffic.channel.nextId
  { traffic := { d.traffic with channel := channel }, drawn := d.drawn ++ [id] }

/-- A request is made under the id at a place among those that have been drawn. -/
def present (d : Desk σ) (place : Nat) (e : Errand σ) (taken : Bool) : Desk σ :=
  match d.drawn[place]? with
  | none => d
  | some id =>
    { traffic := d.traffic.ask { e with id? := some id } taken, drawn := d.drawn.eraseIdx place }

/-- What one move does. -/
def step (d : Desk σ) : Move σ → Desk σ
  | .draw => d.draw
  | .present place e taken => d.present place e taken
  | .occur o => { d with traffic := d.traffic.step o.unnumbered }

def run (d : Desk σ) (course : List (Move σ)) : Desk σ :=
  course.foldl step d

def after (host : σ) (course : List (Move σ)) : Desk σ :=
  (idle host).run course

def callers (d : Desk σ) : List Caller := d.traffic.callers

def outcome? (d : Desk σ) (ticket : Nat) : Option (Except EngineError Value) :=
  d.traffic.channel.outcome? ticket

def hearing (d : Desk σ) : Hearing := d.traffic.channel.hearing

/-- A move, made after some others, opens the request of a caller. -/
def Opens (host : σ) (before : List (Move σ)) (m : Move σ) (w : Caller) : Prop :=
  (after host (before ++ [m])).callers = (after host before).callers ++ [w]

/-- What becomes of the request of a caller in a course of moves: the first that is heard about it
counts, and nothing does after the caller has left. -/
def fate (w : Caller) : Hearing → List (Move σ) → Option (Except EngineError Value)
  | _, [] => none
  | h, m :: rest =>
    if m.leaves w.ticket then none
    else match m.word? h w.id with
      | some outcome => some outcome
      | none => fate w (m.hearing h) rest

end Desk

end Packwright
