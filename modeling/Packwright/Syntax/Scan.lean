import Packwright.Syntax.Cursor
import Packwright.Syntax.Goal

/-!
# Scans

A scan is a program of the reader: it asks probes, consumes tokens, gives up, tries alternatives and
calls goals.

* `Scan.runWith` runs a scan on a cursor; `calls` says what the goals do. A failed alternative leaves
  the cursor where it was.
* A run that goes too deep is `exhausted`. That is no failure: no alternative is tried then.
* `endStatement` is the rule for the end of a statement: a semicolon, or a place where one may be
  left out.
-/

namespace Packwright.Syntax

/-- What comes of running a scan. -/
inductive Outcome (α : Type) where
  | done (value : α) (cursor : Cursor)
  | failed
  | exhausted
  deriving Repr, DecidableEq

/-- A program of the reader. -/
inductive Scan : Type → Type 1 where
  | done {α : Type} (value : α) : Scan α
  | fail {α : Type} : Scan α
  | bind {α β : Type} (first : Scan α) (next : α → Scan β) : Scan β
  | orElse {α : Type} (first second : Scan α) : Scan α
  | lookAhead {α : Type} (inner : Scan α) : Scan (Option α)
  | call (goal : Goal) : Scan (List Node)
  | look {α : Type} (probe : Probe α) : Scan α
  | lineEnded : Scan Bool
  | take (kind : Kind) (count : Nat) : Scan Node
  | takeRaw (kind : Kind) (count : Nat) : Scan Node
  | pass (count : Nat) : Scan Unit
  | skip : Scan Unit

namespace Scan

instance : Monad Scan where
  pure := .done
  bind := .bind

instance : Alternative Scan where
  failure := .fail
  orElse first second := .orElse first (second ())

/-- Runs a scan; goals are answered by `calls`. -/
def runWith (calls : Goal → Cursor → Outcome (List Node)) {α : Type} :
    Scan α → Cursor → Outcome α
  | done value, c => .done value c
  | fail, _ => .failed
  | bind first next, c =>
    match first.runWith calls c with
    | .done value d => (next value).runWith calls d
    | .failed => .failed
    | .exhausted => .exhausted
  | orElse first second, c =>
    match first.runWith calls c with
    | .failed => second.runWith calls c
    | outcome => outcome
  | lookAhead inner, c =>
    match inner.runWith calls c with
    | .done value _ => .done (some value) c
    | .failed => .done none c
    | .exhausted => .exhausted
  | call goal, c => calls goal c
  | look probe, c => .done (probe.answer c.rest) c
  | lineEnded, c => .done c.lineEnded c
  | take kind count, c =>
    match c.takeRaw? kind count with
    | some (leaf, d) => .done leaf d.skip
    | none => .failed
  | takeRaw kind count, c =>
    match c.takeRaw? kind count with
    | some (leaf, d) => .done leaf d
    | none => .failed
  | pass count, c => .done () (c.advance count).skip
  | skip, c => .done () c.skip

def head? : Scan (Option Char) :=
  look .head

def atEnd : Scan Bool := do
  return (← head?) == none

def check (b : Bool) : Scan Unit :=
  if b then pure () else failure

/-! ## Words and marks -/

def word : Scan (List Char) :=
  look .word

def atWord (w : String) : Scan Bool := do
  return (← word) == w.toList

/-- Consumes a given word as a token. -/
def keyword (w : String) (kind : Kind := .token) : Scan Node := do
  check (← atWord w)
  take kind w.length

def anyWord (kind : Kind) : Scan Node := do
  take kind (← word).length

/-- Consumes a word that is not reserved. -/
def name (kind : Kind) : Scan Node := do
  let w ← word
  check (!Lexeme.isReserved w)
  take kind w.length

/-- Whether a word that is not reserved is at the cursor. -/
def atName : Scan Bool := do
  let w ← word
  return !w.isEmpty && !Lexeme.isReserved w

def mark : Scan (List Char) :=
  look .mark

def at_ (m : String) : Scan Bool := do
  return (← mark) == m.toList

/-- Consumes a given mark. -/
def sign (m : String) (kind : Kind := .token) : Scan Node := do
  check (← at_ m)
  take kind m.length

/-- Consumes a given character, whatever follows it, and stops right behind it. -/
def charRaw (c : Char) : Scan Node := do
  check ((← head?) == some c)
  takeRaw .token 1

/-- Consumes a given character, whatever follows it. -/
def char (c : Char) : Scan Node := do
  check ((← head?) == some c)
  take .token 1

/-- Runs a scan if a condition holds; otherwise contributes nothing. -/
def when (b : Bool) (p : Scan (List Node)) : Scan (List Node) :=
  if b then p else pure []

/-! ## Ends of statements -/

/-- Whether the semicolon of a statement may be left out here: at the end, before a closing brace,
or after a line end unless the next line goes on. -/
def mayEndStatement : Scan Bool := do
  let c ← head?
  if c == none || c == some '\x7d' then return true
  if ← lineEnded then return !(← look .continuation)
  return false

/-- The end of a statement: a semicolon, or nothing where it may be left out. -/
def endStatement : Scan (List Node) := do
  if ← at_ ";" then return [← sign ";"]
  check (← mayEndStatement)
  return []

def node (kind : Kind) (parts : List Node) : Scan Node := do
  return .branch kind parts

end Scan

end Packwright.Syntax
