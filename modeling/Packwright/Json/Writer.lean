import Packwright.Text.Utf16
import Packwright.Value

/-!
# Writing JSON

The one layout in which documents are written: a comma and a space between elements, a colon and a
space after a key, and only printable ASCII. Any other character is escaped by its code units in
lowercase digits, unless it has a short escape.
-/

namespace Packwright.Json

open Packwright.Text

def unitEscape (unit : Nat) : List Char :=
  '\\' :: 'u' :: hexDigits 4 unit

/-- How a character is written inside a text. -/
def escapeChar (c : Char) : List Char :=
  match c with
  | '"' => ['\\', '"']
  | '\\' => ['\\', '\\']
  | '\n' => ['\\', 'n']
  | '\r' => ['\\', 'r']
  | '\t' => ['\\', 't']
  | '\x08' => ['\\', 'b']
  | '\x0c' => ['\\', 'f']
  | c =>
    if 0x20 ≤ c.toNat ∧ c.toNat < 0x7f then [c]
    else if c.toNat < 0x10000 then unitEscape c.toNat
    else
      let (high, low) := Utf16.surrogates c
      unitEscape high ++ unitEscape low

def writeText (s : String) : List Char :=
  '"' :: s.toList.flatMap escapeChar ++ ['"']

/-- Numbers are laid out as everywhere, but infinity and the undefined number have words of their
own. -/
def numberLayout : Binary64.Layout :=
  { Binary64.plain with infinityText := "Infinity", nanText := "NaN" }

mutual

/-- The text of a value. -/
def writeChars : Value → List Char
  | .null => "null".toList
  | .bool true => "true".toList
  | .bool false => "false".toList
  | .int i => (toString i).toList
  | .real x => (x.render numberLayout).toList
  | .text s => writeText s
  | .stamp s => writeText s
  | .list items => '[' :: writeItems items ++ [']']
  | .table fields => '\x7b' :: writeFields fields ++ ['\x7d']

def writeItems : List Value → List Char
  | [] => []
  | [v] => writeChars v
  | v :: rest => writeChars v ++ ',' :: ' ' :: writeItems rest

def writeFields : List (String × Value) → List Char
  | [] => []
  | [(k, v)] => writeText k ++ ':' :: ' ' :: writeChars v
  | (k, v) :: rest => writeText k ++ ':' :: ' ' :: writeChars v ++ ',' :: ' ' :: writeFields rest

end

def write (v : Value) : String :=
  String.ofList (writeChars v)

/-- The text of a value with the keys of every table in ascending order. -/
def writeSorted (v : Value) : String :=
  write v.sortKeys

end Packwright.Json
