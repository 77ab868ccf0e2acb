import Packwright.Dictionary
import Packwright.Toml.Lexeme
import Packwright.Value

/-!
# Tables of a configuration file

What a TOML document has declared so far: its tables, and which keys may no longer be used how.

* `update` changes the table that a key leads to, and makes the tables on the way.
* A key is *frozen* if its value was written out in one place, as an array or an inline table;
  nothing below it may be added.
* A key is *declared* if it has a table of its own; it may not get another one. The tables that a
  dotted key passes through are declared as soon as the next header is reached.
-/

namespace Packwright.Toml

/-- Changes the table that a key leads to. In a list of tables the last one is meant, if
`throughLists` holds. -/
def update (throughLists : Bool) :
    Key → (Value.Fields → Except Error Value.Fields) → Value.Fields → Except Error Value.Fields
  | [], change, fields => change fields
  | part :: rest, change, fields =>
    match Dictionary.get? fields part with
    | none => do
      let inner ← update throughLists rest change []
      pure (Dictionary.put fields part (.table inner))
    | some (.table inner) => do
      let inner ← update throughLists rest change inner
      pure (Dictionary.put fields part (.table inner))
    | some (.list items) =>
      match throughLists, items.getLast? with
      | true, some (.table inner) => do
        let inner ← update throughLists rest change inner
        pure (Dictionary.put fields part (.list (items.dropLast ++ [.table inner])))
      | _, _ => .error .malformed
    | some _ => .error .malformed

def define (part : String) (value : Value) (fields : Value.Fields) : Except Error Value.Fields :=
  if Dictionary.has fields part then .error .malformed else .ok (Dictionary.put fields part value)

/-- Adds an empty table to the list of a key. -/
def addToList (part : String) (fields : Value.Fields) : Except Error Value.Fields :=
  match Dictionary.get? fields part with
  | none => .ok (Dictionary.put fields part (.list [.table []]))
  | some (.list items) => .ok (Dictionary.put fields part (.list (items ++ [.table []])))
  | some _ => .error .malformed

/-- Whether a value was written out in one place. -/
def isClosed : Value → Bool
  | .list _ => true
  | .table _ => true
  | _ => false

def split (key : Key) : Key × String :=
  (key.dropLast, key.getLast?.getD "")

def passed (key : Key) : List Key :=
  (List.range (key.length - 1)).map fun i => key.take (i + 1)

def covers (keys : List Key) (key : Key) : Bool :=
  keys.any fun k => k.isPrefixOf key

/-! ## Inline tables -/

/-- An inline table that is being read. -/
structure Inline where
  fields : Value.Fields
  frozen : List Key

/-- Adds a pair to an inline table. -/
def Inline.add (t : Inline) (key : Key) (value : Value) : Except Error Inline :=
  if covers t.frozen key then .error .malformed
  else do
    let (path, part) := split key
    let fields ← update false path (define part value) t.fields
    pure ⟨fields, if isClosed value then key :: t.frozen else t.frozen⟩

/-! ## The document -/

/-- A document that is being read. -/
structure Document where
  fields : Value.Fields
  header : Key
  frozen : List Key
  declared : List Key
  passing : List Key

namespace Document

def empty : Document := ⟨[], [], [], [], []⟩

def settle (d : Document) : Document :=
  { d with declared := d.passing ++ d.declared, passing := [] }

/-- Starts the table of a header. -/
def openTable (d : Document) (key : Key) : Except Error Document :=
  let d := d.settle
  if d.declared.contains key || covers d.frozen key then .error .malformed
  else do
    let fields ← update true key .ok d.fields
    pure { d with fields := fields, header := key, declared := key :: d.declared }

/-- Starts the next table of a list; below its key everything may be declared anew. -/
def openItem (d : Document) (key : Key) : Except Error Document :=
  let d := d.settle
  if covers d.frozen key then .error .malformed
  else do
    let (path, part) := split key
    let fields ← update true path (addToList part) d.fields
    pure { d with
      fields := fields
      header := key
      frozen := d.frozen.filter fun k => !key.isPrefixOf k
      declared := key :: d.declared.filter fun k => !key.isPrefixOf k }

/-- Adds a pair to the table of the last header. -/
def add (d : Document) (key : Key) (value : Value) : Except Error Document :=
  let ways := (passed key).map fun k => d.header ++ k
  let (path, part) := split (d.header ++ key)
  if ways.any d.declared.contains || covers d.frozen path then .error .malformed
  else do
    let fields ← update true path (define part value) d.fields
    pure { d with
      fields := fields
      passing := ways ++ d.passing
      frozen := if isClosed value then (d.header ++ key) :: d.frozen else d.frozen }

end Document

end Packwright.Toml
