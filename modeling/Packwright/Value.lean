import Packwright.Binary64
import Packwright.Dictionary
import Packwright.Text.Quoted

/-!
# Values of documents and messages

One type for what configuration files, manifests, source maps and engine messages are made of.
Tables keep the order of their keys.

* `Value.display` is the text of a value inside a message to a person: a text as it is, and inside
  a list or a table between quotes.
* `Value.sortKeys` puts every table inside a value into ascending order of its keys.
-/

namespace Packwright

/-- A value of a document or a message. -/
inductive Value where
  | null
  | bool (b : Bool)
  | int (i : Int)
  | real (x : Binary64)
  | text (s : String)
  | stamp (s : String)
  | list (items : List Value)
  | table (fields : List (String × Value))
  deriving Repr, Inhabited

namespace Value

abbrev Fields := Dictionary String Value

/-- A field of a table; other values have none. -/
def field? : Value → String → Option Value
  | table fields, key => Dictionary.get? fields key
  | _, _ => none

def text? : Value → Option String
  | text s => some s
  | _ => none

/-- The integer of a value that is one; a truth value is none. -/
def int? : Value → Option Int
  | int i => some i
  | _ => none

def bool? : Value → Option Bool
  | bool b => some b
  | _ => none

def isTable : Value → Bool
  | table _ => true
  | _ => false

def isNull : Value → Bool
  | null => true
  | _ => false

/-- A text or nothing. -/
def ofText? : Option String → Value
  | some s => text s
  | none => null

/-- An integer or nothing. -/
def ofInt? : Option Int → Value
  | some i => int i
  | none => null

def texts (items : List String) : Value :=
  list (items.map text)

/-- Whether a value counts as empty: null, false, zero, or without elements. -/
def isEmpty : Value → Bool
  | null => true
  | bool b => !b
  | int i => i == 0
  | real (.finite _ m _) => m == 0
  | real _ => false
  | text s => s == ""
  | stamp _ => false
  | list items => items.isEmpty
  | table fields => fields.isEmpty

def kind : Value → String
  | null => "NoneType"
  | bool _ => "bool"
  | int _ => "int"
  | real _ => "float"
  | text _ => "str"
  | stamp _ => "datetime"
  | list _ => "list"
  | table _ => "dict"

/-- The message for a value of a kind that has no elements, where a list is asked for. -/
def notAList (kind : String) : String :=
  s!"'{kind}' object is not iterable"

def fields? : Value → Option Fields
  | table fields => some fields
  | _ => none

/-- The tables among the elements of a value; the characters of a text and the keys of a table are
none. Of another value it yields its kind. -/
def tablesAmong : Value → Except String (List Fields)
  | list items => .ok (items.filterMap fields?)
  | text _ => .ok []
  | table _ => .ok []
  | v => .error v.kind

mutual

/-- The text of a value as an element of a list or a table. -/
def quotedForm : Value → List Char
  | null => "None".toList
  | bool true => "True".toList
  | bool false => "False".toList
  | int i => (toString i).toList
  | real x => (x.render Binary64.plain).toList
  | text s => Text.quotedChars s.toList
  | stamp s => s.toList
  | list items => '[' :: quotedItems items ++ [']']
  | table fields => '\x7b' :: quotedFields fields ++ ['\x7d']

/-- The elements of a list, separated by commas. -/
def quotedItems : List Value → List Char
  | [] => []
  | [v] => quotedForm v
  | v :: rest => quotedForm v ++ ',' :: ' ' :: quotedItems rest

/-- The fields of a table, separated by commas. -/
def quotedFields : List (String × Value) → List Char
  | [] => []
  | [(k, v)] => Text.quotedChars k.toList ++ ':' :: ' ' :: quotedForm v
  | (k, v) :: rest =>
    Text.quotedChars k.toList ++ ':' :: ' ' :: quotedForm v ++ ',' :: ' ' :: quotedFields rest

end

/-- The text of a value inside a message. -/
def display : Value → String
  | text s => s
  | v => String.ofList (quotedForm v)

/-- The text of a field inside a message; one that is absent is empty. -/
def textAt (fields : Fields) (key : String) : String :=
  ((Dictionary.get? fields key).map display).getD ""

mutual

/-- The value with every table inside it in ascending order of its keys. -/
def sortKeys : Value → Value
  | list items => list (sortItems items)
  | table fields => table ((sortFields fields).mergeSort fun p q => p.1 ≤ q.1)
  | v => v

/-- Every element with its tables sorted. -/
def sortItems : List Value → List Value
  | [] => []
  | v :: rest => sortKeys v :: sortItems rest

/-- Every field with the tables of its value sorted. -/
def sortFields : List (String × Value) → List (String × Value)
  | [] => []
  | (k, v) :: rest => (k, sortKeys v) :: sortFields rest

end

end Value

end Packwright
