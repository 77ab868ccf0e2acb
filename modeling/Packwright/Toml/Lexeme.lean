import Packwright.Binary64
import Packwright.Json.Reader
import Packwright.Value

/-!
# Words of configuration files

Keys, texts, numbers and dates of a TOML document. Every reader takes the characters that are left
and yields what it read with the rest, or nothing if nothing of its kind stands there.

* `readKey` reads a dotted key.
* `readBasic` and `readLiteral` read texts, on one line or on several.
* `readNumber?` reads integers in four bases and decimal fractions; underscores may stand between
  two digits.
* `readStamp?` reads dates, times and both; a date has to exist in the calendar.
-/

namespace Packwright.Toml

open Packwright.Text

/-- Why a document cannot be read. -/
inductive Error where
  | malformed
  | tooManyDigits (count : Nat)
  deriving Repr, DecidableEq

def isSpace (c : Char) : Bool :=
  c == ' ' || c == '\t'

def isControl (c : Char) : Bool :=
  (c.toNat < 0x20 || c.toNat == 0x7f) && c != '\t'

def skipSpace (s : List Char) : List Char :=
  s.dropWhile isSpace

def skipLines (s : List Char) : List Char :=
  s.dropWhile fun c => isSpace c || c == '\n'

/-- The rest after a comment, if there is one. -/
def skipComment : List Char → Except Error (List Char)
  | '#' :: rest =>
    if (rest.takeWhile (· ≠ '\n')).any isControl then .error .malformed
    else .ok (rest.dropWhile (· ≠ '\n'))
  | s => .ok s

/-! ## Texts -/

/-- Reads hexadecimal digits of a given number that write a character. -/
def readCode (width : Nat) (s : List Char) : Except Error (List Char × List Char) :=
  let word := s.take width
  match word.mapM hexDigit? with
  | none => .error .malformed
  | some values =>
    let code := ofDigits 16 values
    if word.length = width && code.isValidChar then .ok ([Char.ofNat code], s.drop width)
    else .error .malformed

/-- The character that a backslash before `c` stands for. -/
def shortEscape? (c : Char) : Option Char :=
  match c with
  | 'b' => some '\x08'
  | 't' => some '\t'
  | 'n' => some '\n'
  | 'f' => some '\x0c'
  | 'r' => some '\r'
  | '"' => some '"'
  | '\\' => some '\\'
  | _ => none

/-- Reads what follows a backslash. In a text of several lines a backslash at the end of a line
swallows all blanks and newlines after it. -/
def readEscape (multiline : Bool) : List Char → Except Error (List Char × List Char)
  | [] => .error .malformed
  | c :: rest =>
    if multiline && (isSpace c || c == '\n') then
      match skipSpace (c :: rest) with
      | [] => .ok ([], [])
      | d :: rest => if d = '\n' then .ok ([], skipLines rest) else .error .malformed
    else if c = 'u' then readCode 4 rest
    else if c = 'U' then readCode 8 rest
    else match shortEscape? c with
      | some d => .ok ([d], rest)
      | none => .error .malformed

/-- Whether a character may not stand in a text. -/
def isIllegal (multiline : Bool) (c : Char) : Bool :=
  isControl c && !(multiline && c == '\n')

/-- Reads the rest of a text with escapes up to its closing quotes, with explicit fuel. -/
def readBasicFrom (multiline : Bool) :
    (fuel : Nat) → List Char → Except Error (List Char × List Char)
  | 0, _ => .error .malformed
  | _, [] => .error .malformed
  | fuel + 1, c :: rest =>
    if c = '"' && !multiline then .ok ([], rest)
    else if c = '"' && ['"', '"'].isPrefixOf rest then .ok ([], rest.drop 2)
    else if c = '\\' then do
      let (cs, rest) ← readEscape multiline rest
      let (more, rest) ← readBasicFrom multiline fuel rest
      pure (cs ++ more, rest)
    else if isIllegal multiline c then .error .malformed
    else do
      let (more, rest) ← readBasicFrom multiline fuel rest
      pure (c :: more, rest)

/-- Reads the rest of a text without escapes up to its closing quotes. -/
def readLiteralFrom (multiline : Bool) : List Char → Except Error (List Char × List Char)
  | [] => .error .malformed
  | c :: rest =>
    if c = '\'' && !multiline then .ok ([], rest)
    else if c = '\'' && ['\'', '\''].isPrefixOf rest then .ok ([], rest.drop 2)
    else if isIllegal multiline c then .error .malformed
    else do
      let (more, rest) ← readLiteralFrom multiline rest
      pure (c :: more, rest)

/-- Reads the rest of a text up to its closing quotes. -/
def readTextFrom (quote : Char) (multiline : Bool) (s : List Char) :
    Except Error (List Char × List Char) :=
  if quote = '"' then readBasicFrom multiline (s.length + 1) s else readLiteralFrom multiline s

/-- Reads the rest of a text of several lines; `s` is what follows the opening quotes. A newline
right after them is dropped, and up to two more quotes after the closing ones belong to the
text. -/
def readLongText (quote : Char) (s : List Char) : Except Error (String × List Char) := do
  let body := match s with
    | '\n' :: rest => rest
    | rest => rest
  let (cs, rest) ← readTextFrom quote true body
  let extra := (rest.take 2).takeWhile (· = quote)
  pure (String.ofList (cs ++ extra), rest.drop extra.length)

/-- Reads the rest of a text; `s` is what follows the first quote. -/
def readText (quote : Char) (s : List Char) : Except Error (String × List Char) :=
  if [quote, quote].isPrefixOf s then readLongText quote (s.drop 2)
  else do
    let (cs, rest) ← readTextFrom quote false s
    pure (String.ofList cs, rest)

/-! ## Keys -/

abbrev Key := List String

def isBare (c : Char) : Bool :=
  c.isAlphanum || c == '-' || c == '_'

def readKeyPart : List Char → Except Error (String × List Char)
  | [] => .error .malformed
  | c :: rest =>
    if isBare c then
      .ok (String.ofList ((c :: rest).takeWhile isBare), (c :: rest).dropWhile isBare)
    else if c = '\'' || c = '"' then do
      let (cs, rest) ← readTextFrom c false rest
      pure (String.ofList cs, rest)
    else .error .malformed

/-- Reads a dotted key and the blanks after it, with explicit fuel. -/
def readKeyFrom : (fuel : Nat) → List Char → Except Error (Key × List Char)
  | 0, _ => .error .malformed
  | fuel + 1, s => do
    let (part, rest) ← readKeyPart s
    match skipSpace rest with
    | '.' :: rest => do
      let (parts, rest) ← readKeyFrom fuel (skipSpace rest)
      pure (part :: parts, rest)
    | rest => pure ([part], rest)

def readKey (s : List Char) : Except Error (Key × List Char) :=
  readKeyFrom (s.length + 1) s

/-! ## Numbers -/

/-- The digits at the head, without the single underscores between them; `seen` says that a digit
stands before. -/
def takeGrouped (isDigit : Char → Bool) : (seen : Bool) → List Char → List Char × List Char
  | _, [] => ([], [])
  | seen, '_' :: d :: rest =>
    if seen && isDigit d then
      let (ds, rest) := takeGrouped isDigit true rest
      (d :: ds, rest)
    else ([], '_' :: d :: rest)
  | _, c :: rest =>
    if isDigit c then
      let (ds, rest) := takeGrouped isDigit true rest
      (c :: ds, rest)
    else ([], c :: rest)

/-- The base that a letter after a zero stands for. -/
def base? (c : Char) : Option Nat :=
  match c with
  | 'x' => some 16
  | 'o' => some 8
  | 'b' => some 2
  | _ => none

def isDigitOf (base : Nat) (c : Char) : Bool :=
  (hexDigit? c).any (· < base)

/-- Reads an integer in a base other than ten. -/
def readBased? : List Char → Option (Value × List Char)
  | '0' :: letter :: s => do
    let base ← base? letter
    match takeGrouped (isDigitOf base) false s with
    | ([], _) => none
    | (ds, rest) => some (.int (ofDigits base (ds.filterMap hexDigit?)), rest)
  | _ => none

def takeSign : List Char → Bool × List Char
  | '-' :: rest => (true, rest)
  | '+' :: rest => (false, rest)
  | rest => (false, rest)

/-- The digits of a fraction, if a point with at least one digit is at the head. -/
def takeFraction : List Char → List Char × List Char
  | '.' :: rest =>
    match takeGrouped Char.isDigit false rest with
    | ([], _) => ([], '.' :: rest)
    | found => found
  | s => ([], s)

/-- The exponent, if the letter, an optional sign and at least one digit are at the head. -/
def takeExponent? : List Char → Option (Int × List Char)
  | e :: rest =>
    if e = 'e' ∨ e = 'E' then
      let (negative, rest) := takeSign rest
      match takeGrouped Char.isDigit false rest with
      | ([], _) => none
      | (ds, rest) =>
        let n : Int := Json.natOfDigits ds
        some (if negative then -n else n, rest)
    else none
  | [] => none

def readDecimal? (s : List Char) : Option (Except Error (Value × List Char)) :=
  let (negative, body) := takeSign s
  let (whole, rest) := match body with
    | '0' :: rest => (['0'], rest)
    | _ => takeGrouped Char.isDigit false body
  if whole.isEmpty then none
  else
    let (fraction, rest) := takeFraction rest
    match fraction, takeExponent? rest with
    | [], none =>
      -- only the digits of integers are limited
      if Json.maxDigits < whole.length then some (.error (.tooManyDigits whole.length))
      else
        let n : Int := Json.natOfDigits whole
        some (.ok (.int (if negative then -n else n), rest))
    | _, exponent? =>
      let (exponent, rest) := exponent?.getD (0, rest)
      some (.ok (.real (Binary64.ofDecimal negative (Json.natOfDigits (whole ++ fraction))
        (exponent - fraction.length)), rest))

/-- Reads one of the numbers that are written as words. -/
def readNumberWord? (s : List Char) : Option (Value × List Char) :=
  let (negative, body) := takeSign s
  if "inf".toList.isPrefixOf body then some (.real (.infinite negative), body.drop 3)
  else if "nan".toList.isPrefixOf body then some (.real .nan, body.drop 3)
  else none

def readNumber? (s : List Char) : Option (Except Error (Value × List Char)) :=
  match readBased? s with
  | some found => some (.ok found)
  | none =>
    match readDecimal? s with
    | some found => some found
    | none => (readNumberWord? s).map .ok

/-! ## Dates and times -/

/-- Reads ASCII digits of a given number that write a number from `lo` to `hi`. -/
def readField? (width lo hi : Nat) (s : List Char) : Option (Nat × List Char) :=
  let word := s.take width
  let n := Json.natOfDigits word
  if word.length = width && word.all Char.isDigit && lo ≤ n && n ≤ hi then some (n, s.drop width)
  else none

/-- The rest after a given character. -/
def after? (c : Char) : List Char → Option (List Char)
  | d :: rest => if d = c then some rest else none
  | [] => none

/-- How many days a month has. -/
def daysIn (year month : Nat) : Nat :=
  if month = 2 then
    if year % 4 = 0 && (year % 100 ≠ 0 || year % 400 = 0) then 29 else 28
  else if month ∈ [4, 6, 9, 11] then 30 else 31

/-- Reads a date; yields whether it exists, and the rest. -/
def readDate? (s : List Char) : Option (Bool × List Char) := do
  let (year, s) ← readField? 4 0 9999 s
  let (month, s) ← readField? 2 1 12 (← after? '-' s)
  let (day, s) ← readField? 2 1 31 (← after? '-' s)
  pure (1 ≤ year && day ≤ daysIn year month, s)

/-- The rest after a time of day. -/
def skipTime? (s : List Char) : Option (List Char) := do
  let (_, s) ← readField? 2 0 23 s
  let (_, s) ← readField? 2 0 59 (← after? ':' s)
  let (_, s) ← readField? 2 0 59 (← after? ':' s)
  match s with
  | '.' :: d :: rest => if d.isDigit then some (rest.dropWhile Char.isDigit) else some s
  | _ => some s

/-- The rest after an offset from universal time, if there is one. -/
def skipOffset (s : List Char) : List Char :=
  match s with
  | c :: rest =>
    if c = 'Z' ∨ c = 'z' then rest
    else if c = '+' ∨ c = '-' then
      (do
        let (_, rest) ← readField? 2 0 23 rest
        let (_, rest) ← readField? 2 0 59 (← after? ':' rest)
        pure rest).getD s
    else s
  | [] => []

/-- The rest after the time that may follow a date. -/
def skipTimeOfDate (s : List Char) : List Char :=
  match s with
  | c :: rest =>
    if c = 'T' ∨ c = 't' ∨ c = ' ' then ((skipTime? rest).map skipOffset).getD s else s
  | [] => []

def readStamp? (s : List Char) : Option (Except Error (Value × List Char)) :=
  let upTo (rest : List Char) : Value :=
    .stamp (String.ofList (s.take (s.length - rest.length)))
  match readDate? s with
  | some (false, _) => some (.error .malformed)
  | some (true, rest) =>
    let rest := skipTimeOfDate rest
    some (.ok (upTo rest, rest))
  | none => (skipTime? s).map fun rest => .ok (upTo rest, rest)

end Packwright.Toml
