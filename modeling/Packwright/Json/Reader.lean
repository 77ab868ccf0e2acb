import Packwright.Text.Utf16
import Packwright.Value

/-!
# Reading JSON

A reader over the characters that are left. It accepts the usual grammar and the three words for
numbers that are not finite, and it names the first fault with its line, column and offset.

* `readText`, `readNumber` and `readValue` read one construct at the head of the characters and
  return what is left. A fault is a complaint with the characters left at the place of the fault,
  so no position has to be carried along.
* `read` reads a whole document: blanks around one value.
* `limit?` is how many digits an integer may have, if there is a limit; `read` has the usual one.
* Of two fields with one name the last value counts, in the place of the first.
-/

namespace Packwright.Json

open Packwright.Text

/-- What a reader misses or dislikes. -/
inductive Complaint where
  | value
  | comma
  | colon
  | fieldName
  | controlCharacter
  | escape
  | unicodeEscape
  | unterminated
  | extraData
  | byteOrderMark
  deriving Repr, DecidableEq

def Complaint.text : Complaint → String
  | value => "Expecting value"
  | comma => "Expecting ',' delimiter"
  | colon => "Expecting ':' delimiter"
  | fieldName => "Expecting property name enclosed in double quotes"
  | controlCharacter => "Invalid control character at"
  | escape => "Invalid \\escape"
  | unicodeEscape => "Invalid \\uXXXX escape"
  | unterminated => "Unterminated string starting at"
  | extraData => "Extra data"
  | byteOrderMark => "Unexpected UTF-8 BOM (decode using utf-8-sig)"

/-- A fault while reading: a complaint with the characters left where it arose, or an integer with
more digits than are converted. -/
inductive Fault where
  | malformed (complaint : Complaint) (left : Nat)
  | tooManyDigits (count : Nat)
  deriving Repr, DecidableEq

def complain {α : Type} (complaint : Complaint) (rest : List Char) : Except Fault α :=
  .error (.malformed complaint rest.length)

def isSpace (c : Char) : Bool :=
  c == ' ' || c == '\t' || c == '\n' || c == '\r'

def skipSpace (s : List Char) : List Char :=
  s.dropWhile isSpace

/-! ## Texts -/

/-- The value of four hexadecimal digits at the head. -/
def readHex4? : List Char → Option (Nat × List Char)
  | a :: b :: c :: d :: rest => do
    let values ← [a, b, c, d].mapM hexDigit?
    pure (ofDigits 16 values, rest)
  | _ => none

/-- The character that a backslash before `c` stands for. -/
def shortEscape? (c : Char) : Option Char :=
  match c with
  | '"' => some '"'
  | '\\' => some '\\'
  | '/' => some '/'
  | 'b' => some '\x08'
  | 'f' => some '\x0c'
  | 'n' => some '\n'
  | 'r' => some '\r'
  | 't' => some '\t'
  | _ => none

/-- Reads the hexadecimal part of an escape; `u` is the rest from the letter `u` on. A digit group
has to be followed by at least one more character. A high surrogate joins with an escaped low one
after it. -/
def readUnicode (u : List Char) : Except Fault (Char × List Char) :=
  match readHex4? (u.drop 1) with
  | none => complain .unicodeEscape u
  | some (_, []) => complain .unicodeEscape u
  | some (unit, rest) =>
    if Utf16.isHighSurrogate unit && rest.length > 6 then
      match rest with
      | '\\' :: 'u' :: digits =>
        match readHex4? digits with
        | none => complain .unicodeEscape ('u' :: digits)
        | some (low, rest') =>
          if Utf16.isLowSurrogate low then .ok (Utf16.ofSurrogates unit low, rest')
          else .ok (Utf16.unitChar unit, rest)
      | _ => .ok (Utf16.unitChar unit, rest)
    else .ok (Utf16.unitChar unit, rest)

/-- Reads the rest of a text up to its closing quote; `start` is the rest from the opening quote
on. -/
def readTextFrom (start : List Char) :
    (fuel : Nat) → List Char → Except Fault (List Char × List Char)
  | 0, _ => complain .unterminated start
  | _, [] => complain .unterminated start
  | fuel + 1, c :: rest =>
    if c = '"' then .ok ([], rest)
    else if c = '\\' then
      match rest with
      | [] => complain .unterminated start
      | 'u' :: _ => do
        let (d, rest) ← readUnicode rest
        let (more, rest) ← readTextFrom start fuel rest
        pure (d :: more, rest)
      | e :: rest' =>
        match shortEscape? e with
        | none => complain .escape (c :: rest)
        | some d => do
          let (more, rest) ← readTextFrom start fuel rest'
          pure (d :: more, rest)
    else if c.toNat < 0x20 then complain .controlCharacter (c :: rest)
    else do
      let (more, rest) ← readTextFrom start fuel rest
      pure (c :: more, rest)

/-- Reads a text; `rest` is what follows the opening quote. -/
def readText (rest : List Char) : Except Fault (String × List Char) := do
  let (s, rest) ← readTextFrom ('"' :: rest) (rest.length + 1) rest
  pure (String.ofList s, rest)

/-! ## Numbers -/

def takeDigits (s : List Char) : List Char × List Char :=
  (s.takeWhile Char.isDigit, s.dropWhile Char.isDigit)

def natOfDigits (ds : List Char) : Nat :=
  ofDigits 10 (ds.map fun c => c.toNat - '0'.toNat)

/-- The whole part of a number: a zero, or digits that do not start with one. -/
def takeWhole : List Char → List Char × List Char
  | '0' :: rest => (['0'], rest)
  | s => takeDigits s

/-- The digits of a fraction, if a point with at least one digit is at the head. -/
def takeFraction : List Char → List Char × List Char
  | '.' :: rest =>
    match takeDigits rest with
    | ([], _) => ([], '.' :: rest)
    | found => found
  | s => ([], s)

/-- The exponent, if the letter, an optional sign and at least one digit are at the head. -/
def takeExponent? (s : List Char) : Option (Int × List Char) :=
  match s with
  | e :: rest =>
    if e = 'e' ∨ e = 'E' then
      let (sign, rest) := match rest with
        | '-' :: r => ((-1 : Int), r)
        | '+' :: r => (1, r)
        | r => (1, r)
      match takeDigits rest with
      | ([], _) => none
      | (ds, rest) => some (sign * natOfDigits ds, rest)
    else none
  | [] => none

/-- The greatest number of digits of an integer, if no other limit is set. -/
def maxDigits : Nat := 4300

section Limit

variable (limit? : Option Nat)

/-- Reads a number; without a fraction and an exponent it is an integer. -/
def readNumber (s : List Char) : Except Fault (Value × List Char) :=
  let (negative, body) := match s with
    | '-' :: rest => (true, rest)
    | _ => (false, s)
  match takeWhole body with
  | ([], _) => complain .value s
  | (whole, rest) =>
    let (fraction, rest) := takeFraction rest
    match fraction, takeExponent? rest with
    | [], none =>
      -- only the digits of integers are limited
      if limit?.any (· < whole.length) then .error (.tooManyDigits whole.length)
      else
        let n : Int := natOfDigits whole
        .ok (.int (if negative then -n else n), rest)
    | _, none =>
      .ok (.real (Binary64.ofDecimal negative (natOfDigits (whole ++ fraction))
        (-fraction.length)), rest)
    | _, some (exponent, rest) =>
      .ok (.real (Binary64.ofDecimal negative (natOfDigits (whole ++ fraction))
        (exponent - fraction.length)), rest)

/-! ## Values -/

/-- The words that are values. -/
def words : List (List Char × Value) :=
  [("null".toList, .null), ("true".toList, .bool true), ("false".toList, .bool false),
   ("NaN".toList, .real .nan), ("Infinity".toList, .real (.infinite false)),
   ("-Infinity".toList, .real (.infinite true))]

/-- The value of a word at the head of the characters, and the rest. -/
def readWord? (s : List Char) : Option (Value × List Char) :=
  words.findSome? fun (word, v) => if word.isPrefixOf s then some (v, s.drop word.length) else none

mutual

/-- Reads a value at the head of the characters. -/
def readValue : (fuel : Nat) → List Char → Except Fault (Value × List Char)
  | 0, s => complain .value s
  | fuel + 1, s =>
    match s with
    | [] => complain .value s
    | '"' :: rest => do
      let (t, rest) ← readText rest
      pure (.text t, rest)
    | '\x7b' :: rest =>
      match skipSpace rest with
      | '\x7d' :: rest => .ok (.table [], rest)
      | rest => do
        let (fields, rest) ← readFields fuel [] rest
        pure (.table fields, rest)
    | '[' :: rest =>
      match skipSpace rest with
      | ']' :: rest => .ok (.list [], rest)
      | rest => do
        let (items, rest) ← readItems fuel rest
        pure (.list items, rest)
    | s =>
      match readWord? s with
      | some found => .ok found
      | none => readNumber limit? s

/-- Reads the elements of a list up to its closing bracket. -/
def readItems : (fuel : Nat) → List Char → Except Fault (List Value × List Char)
  | 0, s => complain .value s
  | fuel + 1, s => do
    let (v, rest) ← readValue fuel s
    match skipSpace rest with
    | ']' :: rest => pure ([v], rest)
    | ',' :: rest => do
      let (more, rest) ← readItems fuel (skipSpace rest)
      pure (v :: more, rest)
    | rest => complain .comma rest

/-- Reads the fields of a table up to its closing brace, after those already read. -/
def readFields : (fuel : Nat) → Value.Fields → List Char → Except Fault (Value.Fields × List Char)
  | 0, _, s => complain .fieldName s
  | fuel + 1, fields, s =>
    match s with
    | '"' :: rest => do
      let (key, rest) ← readText rest
      match skipSpace rest with
      | ':' :: rest => do
        let (v, rest) ← readValue fuel (skipSpace rest)
        -- a key that is there already keeps its place, with the later value
        let fields := Dictionary.put fields key v
        match skipSpace rest with
        | '\x7d' :: rest => pure (fields, rest)
        | ',' :: rest => readFields fuel fields (skipSpace rest)
        | rest => complain .comma rest
      | rest => complain .colon rest
    | s => complain .fieldName s

end

/-- A fault of a whole document: a complaint with its line and column from one and its offset from
zero, or an integer with too many digits. -/
inductive ReadError where
  | malformed (complaint : Complaint) (line column offset : Nat)
  | tooManyDigits (count : Nat)
  deriving Repr, DecidableEq

def ReadError.message : ReadError → String
  | malformed complaint line column offset =>
    complaint.text ++ s!": line {line} column {column} (char {offset})"
  | tooManyDigits count =>
    s!"Exceeds the limit ({maxDigits} digits) for integer string conversion: "
      ++ s!"value has {count} digits; use sys.set_int_max_str_digits() to increase the limit"

/-- The place of a fault in a document of which some characters are left. -/
def locate (document : List Char) : Fault → ReadError
  | .tooManyDigits count => .tooManyDigits count
  | .malformed complaint left =>
    let offset := document.length - left
    let before := document.take offset
    let column := (before.reverse.takeWhile (· ≠ '\n')).length
    .malformed complaint (before.count '\n' + 1) (column + 1) offset

/-- Reads the one value of a document, with blanks around it. -/
def readDocument (document : List Char) : Except Fault Value :=
  match document with
  | '\uFEFF' :: _ => complain .byteOrderMark document
  | _ => do
    let (v, rest) ← readValue limit? (2 * document.length + 2) (skipSpace document)
    match skipSpace rest with
    | [] => pure v
    | rest => complain .extraData rest

/-- The value of a document, or its first fault. -/
def readWithin (document : String) : Except ReadError Value :=
  match readDocument limit? document.toList with
  | .ok v => .ok v
  | .error fault => .error (locate document.toList fault)

end Limit

/-- The value of a document, or its first fault; the usual limit is set. -/
def read (document : String) : Except ReadError Value :=
  readWithin (some maxDigits) document

end Packwright.Json
