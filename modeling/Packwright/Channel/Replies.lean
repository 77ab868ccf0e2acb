import Packwright.Channel.Desk

/-!
# Replies to calls

While the channel listens, the engine may call what the open requests have lent it, and every call
is replied to.

* `Traffic.replies` are the lines that are sent back in the course of what happens.
* `Traffic.OpenUnder` says whose request is open under an id, by what has happened so far: the last
  one that was made under it, unless its id has been given up since.
* `Traffic.Answers` says what the reply to a call is, and `Traffic.Replied` that each call has one.
-/

namespace Packwright

/-! ## Calls -/

namespace Message

/-- A table describes a call: it has the name of what is called. Its parameters are a table, or it
has none, which is like an empty one. -/
structure Describes (fields : Value.Fields) (c : Call) : Prop where
  name : fields.get? "callback" = some c.name
  id : c.id = (fields.get? "id").getD .null
  request : c.request = ((fields.get? "request").getD .null).display
  params : c.params? = ((fields.get? "params").getD (.table [])).fields?

/-- A line calls something: it holds a table that describes the call. -/
def Calls (line : List Char) (c : Call) : Prop :=
  ∃ fields, Holds line fields ∧ Describes fields c

end Message

namespace Occurrence

variable {σ : Type}

/-- Whether the engine calls something. -/
def isCall : Occurrence σ → Bool
  | say (.call _) => true
  | _ => false

def line (line : List Char) : Occurrence σ :=
  say (.ofLine line)

end Occurrence

namespace Traffic

variable {σ : Type}

/-- What is sent back when something happens. -/
def replyTo? (t : Traffic σ) : Occurrence σ → Option HostMessage
  | .say m => if t.channel.hearing = .listening then (t.channel.heed m t.host).2.1 else none
  | _ => none

/-- What is sent back in a course of occurrences, in order. -/
def replies (t : Traffic σ) : List (Occurrence σ) → List HostMessage
  | [] => []
  | o :: rest => (t.replyTo? o).toList ++ (t.step o).replies rest

/-! ## Open requests -/

/-- Whether an occurrence puts an end to what is open under an id: another request is made under
it, or a caller leaves whose request was made under it. -/
def GivesUp (t : Traffic σ) (id : String) : Occurrence σ → Prop
  | .ask e _ => t.idFor e = id
  | .leave ticket => ∃ w, t.callers.find? (fun w => w.ticket = ticket) = some w ∧ w.id = id
  | _ => False

/-- What a request that is open under an id has lent the engine, by what has happened. -/
inductive OpenUnder (host : σ) : List (Occurrence σ) → String → Handlers σ → Prop
  | asked {before : List (Occurrence σ)} (e : Errand σ) :
    OpenUnder host (before ++ [.ask e true]) ((after host before).idFor e) e.handlers
  | kept {before : List (Occurrence σ)} {id : String} {lent : Handlers σ} {o : Occurrence σ}
    (h : OpenUnder host before id lent) (ho : ¬ (after host before).GivesUp id o) :
    OpenUnder host (before ++ [o]) id lent

/-- What a call is for, after what has happened: the handler that the open request which it names
has lent under its name. -/
def Lent (host : σ) (before : List (Occurrence σ)) (c : Call) (handler : Handler σ) : Prop :=
  ∃ name lent, c.name = .text name ∧ OpenUnder host before c.request lent ∧
    lent.get? name = some handler

/-! ## Replies -/

/-- The reply to a call, after what has happened. -/
inductive Answers (host : σ) (before : List (Occurrence σ)) (c : Call) : HostMessage → Prop
  | result {handler : Handler σ} {params : Value.Fields} {v : Value} {s : σ}
    (hlent : Lent host before c handler) (hparams : c.params? = some params)
    (hv : handler params (after host before).host = (.ok v, s)) :
    Answers host before c (.result c.id v)
  | failed {handler : Handler σ} {params : Value.Fields} {cause : Failure} {s : σ}
    (hlent : Lent host before c handler) (hparams : c.params? = some params)
    (hcause : handler params (after host before).host = (.error cause, s)) :
    Answers host before c (.refusal c.id ⟨"CALLBACK_FAILED", cause.message⟩)
  | unknown (hnone : (∀ handler, ¬ Lent host before c handler) ∨ c.params? = none) :
    Answers host before c
      (.refusal c.id ⟨"UNKNOWN_CALLBACK", "Unknown callback: " ++ c.name.display⟩)

/-- Each call in a course has one reply, in turn, and nothing else has any. -/
inductive Replied (host : σ) :
    List (Occurrence σ) → List (Occurrence σ) → List HostMessage → Prop
  | done (before : List (Occurrence σ)) : Replied host before [] []
  | called {before rest : List (Occurrence σ)} {c : Call} {r : HostMessage}
    {more : List HostMessage} (h : Answers host before c r)
    (hmore : Replied host (before ++ [.say (.call c)]) rest more) :
    Replied host before (.say (.call c) :: rest) (r :: more)
  | passed {before rest : List (Occurrence σ)} {o : Occurrence σ} {more : List HostMessage}
    (ho : o.isCall = false) (hmore : Replied host (before ++ [o]) rest more) :
    Replied host before (o :: rest) more

end Traffic

end Packwright
