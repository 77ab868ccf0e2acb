import Packwright.Value

/-!
# Diagnostics

What the compiler reports: a message with a category, perhaps at a place in a file.

* `ofValue` decodes a report; fields of another type than expected count as absent.
* `render` writes `file(line,column): category TScode: message`, leaving out what is absent.
-/

namespace Packwright

/-- A report of the compiler. -/
structure Diagnostic where
  message : String
  category : String
  file? : Option String
  line? : Option Int
  column? : Option Int
  code? : Option Int
  deriving Repr, DecidableEq, Inhabited

namespace Diagnostic

def errorCategory : String := "error"

def isBlocking (d : Diagnostic) : Bool :=
  d.category == errorCategory

/-- Where a report is, with the colon and the space after it. A column that is absent or zero is
the first. -/
def place (d : Diagnostic) : String :=
  match d.file? with
  | none => ""
  | some file =>
    match d.line? with
    | none => file ++ ": "
    | some line =>
      let column := d.column?.getD 0
      let column := if column = 0 then 1 else column
      file ++ s!"({line},{column}): "

def render (d : Diagnostic) : String :=
  let code := match d.code? with
    | some code => s!" TS{code}"
    | none => ""
  d.place ++ d.category ++ code ++ ": " ++ d.message

def ofFields (fields : Value.Fields) : Diagnostic where
  message := Value.textAt fields "message"
  category := ((fields.get? "category").bind Value.text?).getD errorCategory
  file? := (fields.get? "file").bind Value.text?
  line? := (fields.get? "line").bind Value.int?
  column? := (fields.get? "column").bind Value.int?
  code? := (fields.get? "code").bind Value.int?

end Diagnostic

end Packwright
