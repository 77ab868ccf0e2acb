import Packwright.Json.Reader
import Packwright.Json.Writer
import Packwright.Vlq

/-!
# Source maps

A source map of the third revision as a value, read from a document and written as one.

* `ofText` asks for a table with a text under `mappings`; lists may also be given as a text or a
  table, which stand for their characters and keys.
* `toValue` names the fields in a fixed order and leaves out a file and contents that are absent.
-/

namespace Packwright

/-- A source map. The file and the contents of the sources are null when absent. -/
structure SourceMap where
  mappings : String
  sources : List Value
  names : List Value
  file : Value
  sourcesContent : Value
  deriving Repr, Inhabited

namespace SourceMap

/-- Why a source map cannot be read, changed or written. -/
inductive Error where
  | unreadable (cause : Json.ReadError)
  | notAMap
  | notAList (kind : String)
  | unknownDigit (digit : Char)
  deriving Repr, DecidableEq

def Error.message : Error → String
  | unreadable cause => cause.message
  | notAMap => "Source map must be an object with a 'mappings' string."
  | notAList kind => Value.notAList kind
  | unknownDigit digit => Text.quoted (String.singleton digit)

/-- The elements of a value that can stand for a list: a list itself, the characters of a text, the
keys of a table. -/
def elements : Value → Except Error (List Value)
  | .list items => .ok items
  | .text s => .ok (s.toList.map fun c => .text (String.singleton c))
  | .table fields => .ok (fields.map fun (k, _) => .text k)
  | v => .error (.notAList v.kind)

def ofValue (v : Value) : Except Error SourceMap :=
  match v.field? "mappings" with
  | some (.text mappings) => do
    let sources ← elements ((v.field? "sources").getD (.list []))
    let names ← elements ((v.field? "names").getD (.list []))
    pure ⟨mappings, sources, names, (v.field? "file").getD .null,
      (v.field? "sourcesContent").getD .null⟩
  | _ => .error .notAMap

def ofText (document : String) : Except Error SourceMap :=
  match Json.read document with
  | .ok v => ofValue v
  | .error cause => .error (.unreadable cause)

/-- The fields of a source map in the order in which they are written. -/
def fields (m : SourceMap) : Except Error Value.Fields := do
  let file := if m.file.isNull then [] else [("file", m.file)]
  let contents ← if m.sourcesContent.isNull then pure []
    else do pure [("sourcesContent", .list (← elements m.sourcesContent))]
  pure (("version", .int 3) :: file ++ ("sources", .list m.sources) :: contents ++
    [("names", .list m.names), ("mappings", .text m.mappings)])

def toText (m : SourceMap) : Except Error String := do
  pure (Json.write (.table (← m.fields)))

end SourceMap

end Packwright
