import Packwright.Text.Quoted
import Packwright.Text.Search
import Packwright.Text.Word

/-!
# Replacement templates

A template is what is put in place of an occurrence of a fixed text: characters, and references to
the occurrence itself. A backslash starts an escape.

* Letters with a meaning of their own are control characters; any other letter is an error.
* Up to three octal digits name a character; a number that does not start with zero and is not
  three octal digits names a group, and there is only group zero, the whole occurrence.
* A group may also be named between angle brackets.
* `expand` fills a parsed template in.
-/

namespace Packwright.Template

open Packwright.Text

/-- A part of a template. -/
inductive Piece where
  | char (c : Char)
  | occurrence
  deriving Repr, DecidableEq

/-- Why a template cannot be used. -/
inductive Cause where
  | invalidGroup (index : Nat)
  | missingBracket
  | missingName
  | unterminatedName
  | badName (name : String)
  | badEscape (letter : Char)
  | octalRange (digits : String)
  deriving Repr, DecidableEq

def Cause.text : Cause → String
  | invalidGroup index => s!"invalid group reference {index}"
  | missingBracket => "missing <"
  | missingName => "missing group name"
  | unterminatedName => "missing >, unterminated name"
  | badName name => "bad character in group name " ++ quoted name
  | badEscape letter => "bad escape \\" ++ String.singleton letter
  | octalRange digits => "octal escape value \\" ++ digits ++ " outside of range 0-0o377"

/-- An error in a template: a cause at an offset, or a name of a group that nothing has. -/
inductive Error where
  | malformed (cause : Cause) (offset : Nat) (template : String)
  | unknownGroup (name : String)
  deriving Repr, DecidableEq

/-- The message of an error; the line and the column are named when the template has several
lines. -/
def Error.message : Error → String
  | unknownGroup name => "unknown group name " ++ quoted name
  | malformed cause offset template =>
    let before := template.toList.take offset
    let line := before.count '\n' + 1
    let column := (before.reverse.takeWhile (· ≠ '\n')).length + 1
    let place := if template.toList.contains '\n' then s!" (line {line}, column {column})" else ""
    cause.text ++ s!" at position {offset}" ++ place

/-! ## Tokens -/

/-- A token: a character, or a backslash and the character after it. -/
inductive Token where
  | plain (c : Char)
  | escaped (c : Char)
  deriving Repr, DecidableEq

def Token.chars : Token → List Char
  | plain c => [c]
  | escaped c => ['\\', c]

/-- The tokens of a template; a backslash at the very end stands for itself. -/
def tokens : List Char → List Token
  | [] => []
  | '\\' :: c :: rest => .escaped c :: tokens rest
  | c :: rest => .plain c :: tokens rest

def width (ts : List Token) : Nat :=
  (ts.flatMap Token.chars).length

/-- The digit that a token is, in a given base. -/
def Token.digit? (base : Nat) : Token → Option Nat
  | plain c => (asciiDigit? c).filter (· < base)
  | escaped _ => none

/-- A cause with the number of characters between its place and the end. -/
structure Fault where
  cause : Cause
  left : Nat
  deriving Repr

/-- A fault, or a name that no group has. -/
abbrev Refusal := Fault ⊕ String

def refuse {α : Type} (cause : Cause) (left : Nat) : Except Refusal α :=
  .error (.inl ⟨cause, left⟩)

def reference (index left : Nat) : Except Refusal Piece :=
  if index = 0 then .ok .occurrence else refuse (.invalidGroup index) left

/-! ## Escapes -/

/-- The control character that an escaped letter stands for. -/
def control? (c : Char) : Option Char :=
  match c with
  | 'a' => some '\x07'
  | 'b' => some '\x08'
  | 'f' => some '\x0c'
  | 'n' => some '\n'
  | 'r' => some '\r'
  | 't' => some '\t'
  | 'v' => some '\x0b'
  | '\\' => some '\\'
  | _ => none

/-- Whether a text is a name: a letter or an underscore, and then letters, digits and
underscores. -/
def isName : List Char → Bool
  | [] => false
  | c :: rest => isWord c && (digit? c).isNone && rest.all isWord

/-- The characters up to a closing bracket, and the tokens after it. -/
def untilBracket : List Token → Option (List Char × List Token)
  | [] => none
  | .plain '>' :: rest => some ([], rest)
  | t :: rest => (untilBracket rest).map fun (name, rest) => (t.chars ++ name, rest)

/-- Reads a named reference after the letter that announces it. -/
def namedReference (ts : List Token) : Except Refusal (Piece × List Token) :=
  match ts with
  | .plain '<' :: rest =>
    match untilBracket rest with
    | none =>
      if rest.isEmpty then refuse .missingName 0 else refuse .unterminatedName (width rest)
    | some (name, after) =>
      let left := width rest
      if name.isEmpty then refuse .missingName left
      else if isName name then .error (.inr (String.ofList name))
      else match integer? name with
        | some (.ofNat index) => do pure (← reference index left, after)
        | _ => refuse (.badName (String.ofList name)) left
  | _ => refuse .missingBracket (width ts)

/-- Reads at most `count` more octal digits after those that make up `value`. -/
def octalDigits : (count : Nat) → (value : Nat) → List Token → Nat × List Token
  | 0, value, ts => (value, ts)
  | _, value, [] => (value, [])
  | count + 1, value, t :: rest =>
    match t.digit? 8 with
    | some d => octalDigits count (value * 8 + d) rest
    | none => (value, t :: rest)

/-- Reads the rest of a number whose first digit, not zero, is `first`; `left` is the number of
characters from that digit to the end. -/
def numbered (first left : Nat) (ts : List Token) : Except Refusal (Piece × List Token) :=
  match ts with
  | t :: rest =>
    match t.digit? 10 with
    | none => do pure (← reference first left, ts)
    | some second =>
      match rest with
      | u :: rest' =>
        match u.digit? 8 with
        | some third =>
          if first < 8 ∧ second < 8 then
            let value := (first * 8 + second) * 8 + third
            if 0o377 < value then
              refuse (.octalRange (s!"{first}{second}{third}")) (left + 1)
            else .ok (.char (Char.ofNat value), rest')
          else do pure (← reference (first * 10 + second) left, rest)
        | none => do pure (← reference (first * 10 + second) left, rest)
      | [] => do pure (← reference (first * 10 + second) left, rest)
  | [] => do pure (← reference first left, ts)

/-- Reads what an escaped character stands for; `ts` is what follows it. -/
def escape (c : Char) (ts : List Token) : Except Refusal (List Piece × List Token) :=
  if c = 'g' then do
    let (piece, rest) ← namedReference ts
    pure ([piece], rest)
  else if c = '0' then
    let (value, rest) := octalDigits 2 0 ts
    .ok ([.char (Char.ofNat value)], rest)
  else match asciiDigit? c with
    | some first => do
      let (piece, rest) ← numbered first (width ts + 1) ts
      pure ([piece], rest)
    | none =>
      match control? c with
      | some d => .ok ([.char d], ts)
      | none =>
        if c.isAlpha then refuse (.badEscape c) (width ts + 2)
        else .ok ([.char '\\', .char c], ts)

/-- Reads the pieces of the tokens that are left. -/
def piecesFrom : (fuel : Nat) → List Token → Except Refusal (List Piece)
  | 0, _ => .ok []
  | _, [] => .ok []
  | fuel + 1, .plain c :: rest => do pure (.char c :: (← piecesFrom fuel rest))
  | fuel + 1, .escaped c :: rest => do
    let (found, rest) ← escape c rest
    pure (found ++ (← piecesFrom fuel rest))

/-- The pieces of a template. -/
def parse (template : List Char) : Except Error (List Piece) :=
  let ts := tokens template
  match piecesFrom ts.length ts with
  | .ok found => .ok found
  | .error (.inl fault) =>
    .error (.malformed fault.cause (template.length - fault.left) (String.ofList template))
  | .error (.inr name) => .error (.unknownGroup name)

/-- The text of a template for an occurrence. -/
def expand (occurrence : List Char) (found : List Piece) : List Char :=
  found.flatMap fun
    | .char c => [c]
    | .occurrence => occurrence

end Packwright.Template
