import Packwright.Syntax.Definition
import Packwright.Syntax.Element

/-!
# Expressions

From a sequence down to a single operand. Operators are read by precedence climbing (`binary`,
`binaryTail`); an assignment and an arrow function are operands, whose right-hand sides reach as
far as they can.

* `primary` reads what stands alone.
* `suffixes` reads members, subscripts, calls and templates behind it, and `callee` does the same
  for what a `new` constructs, where the first arguments belong to the `new`.
-/

namespace Packwright.Syntax.Reader

open Scan

/-! ## Templates -/

/-- Reads the inside of a template with its closing mark. -/
def chunks : Scan (List Node) := do
  match ← look .chunk with
  | none => failure
  | some n =>
    let text ← when (n != 0) (return [← takeRaw .fragment n])
    if (← head?) == some '`' then return text ++ [← char '`']
    let opening ← take .token 2
    let inner ← one (.expression false)
    let substitution ← node .templateSubstitution [opening, inner, ← charRaw '\x7d']
    return text ++ substitution :: (← read .chunks)

def template : Scan Node := do
  let opening ← charRaw '`'
  node .templateString (opening :: (← read .chunks))

/-! ## Arrow functions -/

/-- Reads the body of an arrow function: a block, or an expression where no block can be read. -/
def arrowBody (noIn : Bool) : Scan Node := do
  if ← at_ "\x7b" then one .block <|> one (.assignment noIn)
  else one (.assignment noIn)

def arrowAfter (noIn : Bool) (before : List Node) : Scan Node := do
  let arrow ← sign "=>"
  node .arrowFunction (before ++ [arrow, ← arrowBody noIn])

/-- Reads what starts with a parenthesis: parameters of an arrow function, or an expression. -/
def parenthesis (noIn : Bool) : Scan Node := do
  let opening ← sign "("
  let inner ← read (.elements ')')
  let closing ← char ')'
  if ← at_ "=>" then arrowAfter noIn [← parametersNode opening inner closing]
  else parenthesizedNode opening inner closing

/-- Reads an arrow function that is marked as asynchronous. -/
def asyncArrow (noIn : Bool) : Scan Node := do
  let word ← keyword "async"
  check (!(← lineEnded))
  if ← at_ "(" then arrowAfter noIn [word, ← parameters]
  else arrowAfter noIn [word, ← name .identifier]

/-- Reads a name, or an arrow function with that name as its parameter. -/
def nameOrArrow (noIn : Bool) : Scan Node := do
  let kind : Kind := if ← atWord "undefined" then .undefined else .identifier
  let leaf ← name kind
  if ← at_ "=>" then arrowAfter noIn [leaf] else return leaf

/-! ## Construction and import -/

/-- Reads a construction, or the meta property that starts with the same word. -/
def construction : Scan Node := do
  let word ← keyword "new"
  if ← at_ "." then
    let dot ← sign "."
    return ← node .metaProperty [word, dot, ← keyword "target"]
  let target ← one .callee
  let args ← when (← at_ "(") (return [← arguments])
  node .newExpression (word :: target :: args)

/-- Reads what starts with the word `import` inside an expression: a call that loads a module, or a
property of the word. -/
def importExpression : Scan Node := do
  let word ← keyword "import" .importKeyword
  if ← at_ "." then
    let dot ← sign "."
    if ← atWord "meta" then return ← node .metaProperty [word, dot, ← keyword "meta"]
    return ← node .memberExpression [word, dot, ← anyWord .propertyIdentifier]
  check (← at_ "(")
  return word

/-! ## Operands -/

/-- The leaves that are words of the language. -/
def wordLeaf? (w : List Char) : Option Kind :=
  if w == "this".toList then some .this
  else if w == "super".toList then some .super
  else if w == "null".toList then some .null
  else if w == "true".toList then some .true
  else if w == "false".toList then some .false
  else none

/-- Reads an operand that starts with a word. -/
def wordOperand (noIn : Bool) (w : List Char) : Scan Node := do
  if ← atFunction then return ← function false
  if w == "class".toList then return ← classAfter [] false
  if w == "new".toList then return ← construction
  if w == "import".toList then return ← importExpression
  match wordLeaf? w with
  | some kind => take kind w.length
  | none =>
    if w == "async".toList then asyncArrow noIn <|> nameOrArrow noIn
    else nameOrArrow noIn

/-- Reads an operand that starts with a mark. -/
def markOperand (noIn : Bool) (c : Char) : Scan Node := do
  match c with
  | '(' => parenthesis noIn
  | '[' =>
    let opening ← sign "["
    let inner ← read (.elements ']')
    node .array (opening :: inner ++ [← char ']'])
  | '\x7b' => object
  | '`' => template
  | '"' | '\'' =>
    match ← look .string with
    | some n => take .string n
    | none => failure
  | '/' =>
    match ← look .regex with
    | some n => take .regex n
    | none => failure
  | '<' =>
    let markup ← one .element
    skip
    return markup
  | '@' =>
    let marks ← read .decorators
    classAfter marks false
  | '#' =>
    let leaf ← privateName
    check (← atWord "in")
    return leaf
  | _ => failure

/-- Reads what stands alone: a word, a number, a text, a bracketed construct. -/
def primary (noIn : Bool) : Scan Node := do
  skipMarkup
  match ← look .number with
  | 0 =>
    let w ← word
    if w.isEmpty then
      match ← head? with
      | some c => markOperand noIn c
      | none => failure
    else wordOperand noIn w
  | n => take .number n

def memberName : Scan Node := do
  if (← head?) == some '#' then privateName else anyWord .propertyIdentifier

/-- Reads a subscript of an expression. -/
def subscript (base : Node) (chain : List Node) : Scan Node := do
  let opening ← sign "["
  let index ← one (.expression false)
  node .subscriptExpression (base :: chain ++ [opening, index, ← char ']'])

/-- Reads one suffix of an expression, if there is one. Arguments are one only if `calls` holds. -/
def suffix? (calls : Bool) (base : Node) : Scan (Option Node) := do
  let m ← mark
  if m == ['.'] then
    let dot ← sign "."
    return some (← node .memberExpression [base, dot, ← memberName])
  if m == ['['] then return some (← subscript base [])
  if m == ['('] && calls then
    return some (← node .callExpression [base, ← arguments])
  if m == ['`'] then return some (← node .callExpression [base, ← template])
  if m == ['?', '.'] then
    let chain ← sign "?." .optionalChain
    if ← at_ "[" then return some (← subscript base [chain])
    if ← at_ "(" then
      check calls
      return some (← node .callExpression [base, chain, ← arguments])
    return some (← node .memberExpression [base, chain, ← memberName])
  return none

/-- Reads all suffixes of an expression. -/
def suffixes (calls : Bool) (base : Node) : Scan (List Node) := do
  match ← suffix? calls base with
  | some longer => read (.suffixes calls longer)
  | none => return [base]

/-- Reads what a construction constructs: an operand with members and templates. -/
def callee : Scan (List Node) := do
  let base ← primary false
  check (base.kind != .importKeyword)
  read (.suffixes false base)

/-! ## Assignments and operators -/

/-- The marks that assign to a place and keep its old value in the sum. -/
def augmentedMarks : List (List Char) :=
  ["+=", "-=", "*=", "/=", "%=", "^=", "&=", "|=", ">>=", ">>>=", "<<=", "**=", "&&=", "||=",
   "??="].map String.toList

/-- The target of an assignment that an expression is, if it can be one. -/
def targetOf? (n : Node) : Option Node :=
  match n.kind with
  | .assignment | .assignmentPattern | .spread => none
  | _ => n.toPattern?

/-- Reads a `yield`, with its operand if there is one on the same line. -/
def yieldExpression (noIn : Bool) : Scan Node := do
  let word ← keyword "yield"
  if ← at_ "*" then
    let star ← sign "*"
    return ← node .yieldExpression [word, star, ← one (.assignment noIn)]
  let ended ← lineEnded
  let value ← (do check (!ended); return [← one (.assignment noIn)]) <|> pure []
  node .yieldExpression (word :: value)

/-- Reads an operand: what stands alone with its suffixes, or an assignment to it. -/
def operand (noIn : Bool) : Scan Node := do
  if ← atWord "yield" then return ← yieldExpression noIn
  let base ← primary noIn
  let place ← one (.suffixes true base)
  let m ← mark
  if m == ['='] then
    match targetOf? place with
    | none => failure
    | some target =>
      let mark ← sign "="
      node .assignment [target, mark, ← one (.assignment noIn)]
  else if augmentedMarks.contains m && place.isUpdatable then
    let mark ← take .token m.length
    node .augmentedAssignment [place, mark, ← one (.assignment noIn)]
  else return place

def prefixWords : List (List Char) := ["typeof", "void", "delete"].map String.toList

def prefixMarks : List (List Char) := ["!", "~", "+", "-"].map String.toList

def stepMarks : List (List Char) := ["++", "--"].map String.toList

/-- Reads an operand with the operators before and behind it. -/
def unary (noIn : Bool) : Scan Node := do
  skipMarkup
  let w ← word
  let m ← mark
  if prefixWords.contains w || prefixMarks.contains m then
    let op ← take .token (max w.length m.length)
    return ← node .unary [op, ← one (.unary noIn)]
  if stepMarks.contains m then
    let op ← take .token m.length
    return ← node .update [op, ← one (.unary noIn)]
  if w == "await".toList then
    let word ← keyword "await"
    return ← node .awaitExpression [word, ← one (.unary noIn)]
  -- behind the end of a line, `++` belongs to what follows
  let value ← one (.operand noIn)
  let m ← mark
  if stepMarks.contains m && !(← lineEnded) then
    let op ← take .token m.length
    node .update [value, op]
  else return value

/-- How tightly an operator between operands binds; the tighter, the greater. -/
def precedence? (noIn : Bool) (op : List Char) : Option Nat :=
  match String.ofList op with
  | "??" => some 1
  | "||" => some 2
  | "&&" => some 3
  | "|" => some 4
  | "^" => some 5
  | "&" => some 6
  | "==" | "!=" | "===" | "!==" => some 7
  | "<" | ">" | "<=" | ">=" | "instanceof" => some 8
  | "in" => if noIn then none else some 8
  | "<<" | ">>" | ">>>" => some 9
  | "+" | "-" => some 10
  | "*" | "/" | "%" => some 11
  | "**" => some 12
  | _ => none

def groupsRight (op : List Char) : Bool :=
  op == ['*', '*']

def operator : Scan (List Char) := do
  let w ← word
  if w.isEmpty then mark else return w

/-- Reads operators that bind at least as tightly as `least`, with their right operands. -/
def binaryTail (noIn : Bool) (least : Nat) (left : Node) : Scan (List Node) := do
  let op ← operator
  match precedence? noIn op with
  | none => return [left]
  | some p =>
    if p < least then return [left]
    let leaf ← take .token op.length
    let right ← one (.binary noIn (if groupsRight op then p else p + 1))
    read (.binaryTail noIn least (← node .binary [left, leaf, right]))

/-- Reads operands joined by operators that bind at least as tightly as `least`. -/
def binary (noIn : Bool) (least : Nat) : Scan (List Node) := do
  let left ← one (.unary noIn)
  read (.binaryTail noIn least left)

/-- Reads an expression without a comma: operands and operators, and a choice behind them. -/
def assignment (noIn : Bool) : Scan Node := do
  let condition ← one (.binary noIn 0)
  if ← at_ "?" then
    let question ← sign "?"
    let yes ← one (.assignment false)
    let colon ← sign ":"
    node .ternary [condition, question, yes, colon, ← one (.assignment noIn)]
  else return condition

/-- Reads an expression: one or more with commas between them. -/
def expression (noIn : Bool) : Scan Node := do
  let first ← one (.assignment noIn)
  if ← at_ "," then
    let comma ← sign ","
    let more ← one (.expression noIn)
    let tail := if more.kind == .sequence then more.children else [more]
    node .sequence (first :: comma :: tail)
  else return first

end Packwright.Syntax.Reader
