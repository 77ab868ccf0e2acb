import Packwright.Text.Search
import Packwright.Toml.Document
import Packwright.Toml.Lexeme

/-!
# Reading configuration files

Reads a TOML document into a table. A document is a sequence of lines with one statement each: a
header, a header of a list of tables, or a pair of a key and a value.

* `readValue` reads a value; arrays may run over several lines, inline tables may not.
* `statement` reads one statement and tells the document of it.
* `read` reads all of them. A carriage return before a newline counts for nothing.
-/

namespace Packwright.Toml

/-- The rest after blanks, newlines and comments, with explicit fuel. -/
def skipGap : (fuel : Nat) → List Char → Except Error (List Char)
  | 0, s => .ok s
  | fuel + 1, s =>
    match skipLines s with
    | '#' :: rest => do skipGap fuel (← skipComment ('#' :: rest))
    | rest => .ok rest

def skipGaps (s : List Char) : Except Error (List Char) :=
  skipGap (s.length + 1) s

/-- Reads a value that does not contain others. -/
def readScalar (s : List Char) : Except Error (Value × List Char) :=
  if "true".toList.isPrefixOf s then .ok (.bool true, s.drop 4)
  else if "false".toList.isPrefixOf s then .ok (.bool false, s.drop 5)
  else match readStamp? s with
    | some found => found
    | none => (readNumber? s).getD (.error .malformed)

/-- Reads the equals sign between a key and a value, and the blanks after it. -/
def readEquals : List Char → Except Error (List Char)
  | '=' :: rest => .ok (skipSpace rest)
  | _ => .error .malformed

mutual

/-- Reads a value, with explicit fuel. -/
def readValue : (fuel : Nat) → List Char → Except Error (Value × List Char)
  | 0, _ => .error .malformed
  | fuel + 1, s =>
    match s with
    | '"' :: rest => do
      let (text, rest) ← readText '"' rest
      pure (.text text, rest)
    | '\'' :: rest => do
      let (text, rest) ← readText '\'' rest
      pure (.text text, rest)
    | '[' :: rest => do
      let (items, rest) ← readItems fuel (← skipGaps rest)
      pure (.list items, rest)
    | '\x7b' :: rest =>
      match skipSpace rest with
      | '\x7d' :: rest => .ok (.table [], rest)
      | rest => do
        let (fields, rest) ← readPairs fuel ⟨[], []⟩ rest
        pure (.table fields, rest)
    | _ => readScalar s

/-- Reads the items of an array up to its closing bracket, with explicit fuel. -/
def readItems : (fuel : Nat) → List Char → Except Error (List Value × List Char)
  | 0, _ => .error .malformed
  | fuel + 1, s =>
    match s with
    | ']' :: rest => .ok ([], rest)
    | _ => do
      let (item, rest) ← readValue fuel s
      match ← skipGaps rest with
      | ']' :: rest => pure ([item], rest)
      | ',' :: rest => do
        let (items, rest) ← readItems fuel (← skipGaps rest)
        pure (item :: items, rest)
      | _ => .error .malformed

/-- Reads the pairs of an inline table up to its closing brace, with explicit fuel. -/
def readPairs : (fuel : Nat) → Inline → List Char → Except Error (Value.Fields × List Char)
  | 0, _, _ => .error .malformed
  | fuel + 1, t, s => do
    let (key, rest) ← readKey s
    let (value, rest) ← readValue fuel (← readEquals rest)
    let t ← t.add key value
    match skipSpace rest with
    | '\x7d' :: rest => pure (t.fields, rest)
    | ',' :: rest => readPairs fuel t (skipSpace rest)
    | _ => .error .malformed

end

/-- Reads a header; `closing` are the brackets that end it. -/
def readHeader (closing : List Char) (s : List Char) : Except Error (Key × List Char) := do
  let (key, rest) ← readKey (skipSpace s)
  if closing.isPrefixOf rest then pure (key, rest.drop closing.length) else .error .malformed

/-- Reads a statement, if there is one, and tells the document of it. -/
def statement (d : Document) (s : List Char) : Except Error (Document × List Char) :=
  match s with
  | '[' :: '[' :: rest => do
    let (key, rest) ← readHeader [']', ']'] rest
    pure (← d.openItem key, rest)
  | '[' :: rest => do
    let (key, rest) ← readHeader [']'] rest
    pure (← d.openTable key, rest)
  | c :: rest =>
    if c = '#' ∨ c = '\n' then .ok (d, s)
    else do
      let (key, rest) ← readKey (c :: rest)
      let rest ← readEquals rest
      let (value, rest) ← readValue (rest.length + 1) rest
      pure (← d.add key value, rest)
  | [] => .ok (d, [])

/-- Reads the lines of a document, with explicit fuel. -/
def readLines : (fuel : Nat) → Document → List Char → Except Error Document
  | 0, d, _ => .ok d
  | fuel + 1, d, s => do
    let (d, rest) ← statement d (skipSpace s)
    match ← skipComment (skipSpace rest) with
    | [] => pure d
    | '\n' :: rest => readLines fuel d rest
    | _ => .error .malformed

def read (document : List Char) : Except Error Value.Fields := do
  let s := Text.replaceAll ['\r', '\n'] ['\n'] document
  pure (← readLines (s.length + 1) .empty s).fields

end Packwright.Toml
