import Packwright.Syntax.Pattern
import Packwright.Syntax.Scan

/-!
# What readers share

The grammar is open: the reader of a construct calls goals for its parts, and the knot is tied once,
where all readers are known.

* `elements`, `parameters` and `parenthesized` are shared by expressions and statements. A list in
  parentheses is read once; the mark behind it decides what it is.
-/

namespace Packwright.Syntax

namespace Reader

open Scan

def read (goal : Goal) : Scan (List Node) :=
  .call goal

/-- Passes over markup comments, which may stand where an operand or a statement may. -/
def skipMarkup : Scan Unit := do
  let n ← look .markupComment
  if 0 < n then
    pass n
    let _ ← read .markup

def one (goal : Goal) : Scan Node := do
  match ← read goal with
  | [n] => return n
  | _ => failure

/-! ## Lists -/

/-- Whether nodes are items with single commas between them; a comma may close the list if
`trailing` holds. -/
def isPlainList (trailing : Bool) : List Node → Bool
  | [] => true
  | [item] => item.isNamed
  | item :: comma :: rest =>
    item.isNamed && !comma.isNamed && (if rest.isEmpty then trailing else isPlainList trailing rest)

/-- Reads an element of a list: an expression, or one that is spread. -/
def item : Scan Node := do
  if ← at_ "..." then
    let dots ← sign "..."
    node .spread [dots, ← one (.assignment false)]
  else one (.assignment false)

/-- Reads elements up to a closing character; elements may be left out. -/
def elements (closing : Char) : Scan (List Node) := do
  if (← head?) == some closing then return []
  if ← at_ "," then
    let comma ← sign ","
    return comma :: (← read (.elements closing))
  let first ← item
  if ← at_ "," then
    let comma ← sign ","
    return first :: comma :: (← read (.elements closing))
  check ((← head?) == some closing)
  return [first]

def arguments : Scan Node := do
  let opening ← sign "("
  let inner ← read (.elements ')')
  node .arguments (opening :: inner ++ [← char ')'])

/-! ## Parameters -/

/-- The parameters that the elements of a list are, if they can be. -/
def parametersOf? (inner : List Node) : Option (List Node) := do
  guard (isPlainList true inner)
  inner.mapM fun n => if n.isNamed then n.toParameter? else some n

/-- The parameters in parentheses of which the parts have been read. -/
def parametersNode (opening : Node) (inner : List Node) (closing : Node) : Scan Node := do
  match parametersOf? inner with
  | some ps => node .formalParameters (opening :: ps ++ [closing])
  | none => failure

def parameters : Scan Node := do
  let opening ← sign "("
  let inner ← read (.elements ')')
  parametersNode opening inner (← char ')')

/-- The expression in parentheses of which the parts have been read. -/
def parenthesizedNode (opening : Node) (inner : List Node) (closing : Node) : Scan Node := do
  check (isPlainList false inner && !inner.isEmpty && inner.all fun n => n.kind != .spread)
  let content ← match inner with
    | [single] => pure single
    | several => node .sequence several
  node .parenthesized [opening, content, closing]

def parenthesized : Scan Node := do
  let opening ← sign "("
  let content ← one (.expression false)
  node .parenthesized [opening, content, ← char ')']

def block : Scan Node := do
  let opening ← sign "\x7b"
  let inner ← read .statements
  node .statementBlock (opening :: inner ++ [← char '\x7d'])

end Reader

end Packwright.Syntax
