import Packwright.Failure
import Packwright.Text.Encoding

/-!
# What host and engine say to each other

Each side writes one document on a line. The host sends requests. While a request is open the
engine may call the host, and the host replies; in the end the engine answers the request.

* `Message.ofLine` understands a line of an engine. Whatever has a name of something to call is a
  call, and any other table is an answer.
* `HostMessage.toLine` writes a line of the host.
-/

namespace Packwright

/-- What an engine asks the host to do while a request is open. Parameters that are not a table are
no parameters. -/
structure Call where
  id : Value
  name : Value
  request : String
  params? : Option Value.Fields
  deriving Repr, Inhabited

/-- A line of an engine. -/
inductive Message where
  | call (c : Call)
  /-- The end of a request. -/
  | answer (id : String) (outcome : Except EngineError Value)
  /-- An empty line, or a document that is not a table. -/
  | nothing
  /-- Not a document. -/
  | garbled
  /-- Not a text, or a document that holds an integer of too many digits. -/
  | unreadable
  deriving Repr

namespace Message

def defaultCode : String := "ENGINE_ERROR"

def defaultText : String := "Engine request failed."

def errorOf : Option Value → EngineError
  | some (.table fields) =>
    ⟨((Dictionary.get? fields "code").map Value.display).getD defaultCode,
      ((Dictionary.get? fields "message").map Value.display).getD defaultText⟩
  | _ => ⟨defaultCode, defaultText⟩

/-- What an answer says: a result if it says that all is well, and else an error. -/
def outcomeOf (fields : Value.Fields) : Except EngineError Value :=
  match fields.get? "ok" with
  | some (.bool true) => .ok ((fields.get? "result").getD .null)
  | _ => .error (errorOf (fields.get? "error"))

/-- The parameters of a call: none are an empty table. -/
def paramsOf : Option Value → Option Value.Fields
  | none => some []
  | some (.table fields) => some fields
  | some _ => none

/-- The name by which a field refers to a request; one that is absent reads like a null. -/
def idOf (id? : Option Value) : String :=
  (id?.getD .null).display

def ofFields (fields : Value.Fields) : Message :=
  match fields.get? "callback" with
  | some name => call {
      id := (fields.get? "id").getD .null
      name := name
      request := idOf (fields.get? "request")
      params? := paramsOf (fields.get? "params") }
  | none => answer (idOf (fields.get? "id")) (outcomeOf fields)

def ofLine (line : List Char) : Message :=
  let line := Text.trim Text.isAsciiBlank line
  if line.isEmpty then nothing
  else match Text.Encoding.decodeLine? line with
    | none => unreadable
    | some document =>
      match Json.read (String.ofList document) with
      | .ok (.table fields) => ofFields fields
      | .ok _ => nothing
      | .error (.tooManyDigits _) => unreadable
      | .error _ => garbled

end Message

/-- A line of the host. -/
inductive HostMessage where
  | request (id method : String) (params : Value.Fields)
  /-- Says what a call has yielded. -/
  | result (call : Value) (value : Value)
  /-- Says why a call has yielded nothing. -/
  | refusal (call : Value) (error : EngineError)
  deriving Repr, Inhabited

namespace HostMessage

def toValue : HostMessage → Value
  | request id method params =>
    .table [("id", .text id), ("method", .text method), ("params", .table params)]
  | result call value => .table [("id", call), ("result", value)]
  | refusal call error =>
    .table [("id", call),
      ("error", .table [("code", .text error.code), ("message", .text error.text)])]

def toLine (m : HostMessage) : String :=
  Json.writeSorted m.toValue

end HostMessage

end Packwright
