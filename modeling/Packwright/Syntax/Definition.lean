import Packwright.Syntax.Reader

/-!
# Functions, classes and object literals

Constructs whose parts have names of their own: functions and methods, the fields of objects and
the members of classes, and decorators.

A word such as `get` or `static` modifies the name behind it only if there is one; otherwise it is
the name itself (`modifier`).
-/

namespace Packwright.Syntax.Reader

open Scan

/-! ## Functions -/

/-- Whether a function is about to start: the word, or `async` before it on the same line. -/
def atFunction : Scan Bool := do
  if ← atWord "function" then return true
  if ← atWord "async" then
    let next ← lookAhead do
      let _ ← keyword "async"
      return (← atWord "function") && !(← lineEnded)
    return next.getD false
  return false

/-- Reads a function; its kind depends on whether it generates and on whether it is a statement. A
statement needs a name. -/
def function (statement : Bool) : Scan Node := do
  let async ← when (← atWord "async") (return [← keyword "async"])
  let word ← keyword "function"
  let star ← when (← at_ "*") (return [← sign "*"])
  let name ← when (statement || (← atName)) (return [← name .identifier])
  let ps ← parameters
  let body ← one .block
  let kind : Kind := match statement, star.isEmpty with
    | true, true => .functionDeclaration
    | true, false => .generatorDeclaration
    | false, true => .functionExpression
    | false, false => .generatorFunction
  node kind (async ++ word :: star ++ name ++ [ps, body])

/-! ## Names of fields and members -/

/-- Whether the name of a field or member is about to start. -/
def atPropertyName : Scan Bool := do
  let c ← head?
  return !(← word).isEmpty || (← look .number) != 0 || (← look .string).isSome ||
    c == some '[' || c == some '#'

def privateName : Scan Node := do
  check ((← head?) == some '#')
  let n ← look .privateName
  check (n != 0)
  take .privateIdentifier (n + 1)

def propertyName : Scan Node := do
  match ← head? with
  | some '[' =>
    let opening ← sign "["
    let inner ← one (.assignment false)
    node .computedName [opening, inner, ← char ']']
  | some '#' => privateName
  | _ =>
    match ← look .string with
    | some n => take .string n
    | none =>
      match ← look .number with
      | 0 => anyWord .propertyIdentifier
      | n => take .number n

/-- Reads a word as a modifier, if a name or one of some further characters stands behind it. -/
def modifier (w : String) (further : List Char) (sameLine : Bool) : Scan (List Node) := do
  if ← atWord w then
    let applies ← lookAhead do
      let _ ← keyword w
      let ended ← lineEnded
      let c ← head?
      return ((← atPropertyName) || further.any fun d => c == some d) && !(sameLine && ended)
    if applies.getD false then return [← keyword w] else return []
  return []

/-- Reads the modifiers of a method: a place, a way of running, and an access or a star. -/
def modifiers : Scan (List Node) := do
  let place ← modifier "static" ['*'] false
  let run ← modifier "async" ['*'] true
  if ← at_ "*" then return place ++ run ++ [← sign "*"]
  let getter ← modifier "get" [] false
  if !getter.isEmpty then return place ++ run ++ getter
  return place ++ run ++ (← modifier "set" [] false)

/-- Reads the rest of a method after its name. -/
def methodTail (before : List Node) : Scan Node := do
  let ps ← parameters
  let body ← one .block
  node .methodDefinition (before ++ [ps, body])

/-! ## Object literals -/

/-- Reads a field of an object: a spread, a method, a pair, or a name alone, perhaps with a
default. -/
def field : Scan Node := do
  if ← at_ "..." then return ← item
  let mods ← modifiers
  let plain ← atName
  let word ← word
  let name ← propertyName
  if ← at_ "(" then return ← methodTail (mods ++ [name])
  check mods.isEmpty
  if ← at_ ":" then
    let colon ← sign ":"
    return ← node .pair [name, colon, ← one (.assignment false)]
  -- a name alone is also what the field is set to, so no reserved word will do
  check (plain && name.kind == .propertyIdentifier)
  let short := Node.leaf .shorthandIdentifier name.start word
  if ← at_ "=" then
    let mark ← sign "="
    return ← node .coverInitializer [short, mark, ← one (.assignment false)]
  return short

/-- Reads fields up to the closing brace; fields may be left out. -/
def fields : Scan (List Node) := do
  if (← head?) == some '\x7d' then return []
  if ← at_ "," then
    let comma ← sign ","
    return comma :: (← read .fields)
  let first ← field
  if ← at_ "," then
    let comma ← sign ","
    return first :: comma :: (← read .fields)
  check ((← head?) == some '\x7d')
  return [first]

def object : Scan Node := do
  let opening ← sign "\x7b"
  let inner ← read .fields
  node .object (opening :: inner ++ [← char '\x7d'])

/-! ## Decorators and classes -/

/-- Reads the dotted names of a decorator after those that have been read. -/
def path (base : Node) : Scan (List Node) := do
  if ← at_ "." then
    let dot ← sign "."
    let name ← anyWord .propertyIdentifier
    read (.path (← node .memberExpression [base, dot, name]))
  else return [base]

/-- Reads a decorator: a dotted name, a call of one, or an expression in parentheses. -/
def decorator : Scan Node := do
  let mark ← sign "@"
  if ← at_ "(" then return ← node .decorator [mark, ← parenthesized]
  let base ← one (.path (← name .identifier))
  if ← at_ "(" then
    let call ← node .callExpression [base, ← arguments]
    return ← node .decorator [mark, call]
  node .decorator [mark, base]

def decorators : Scan (List Node) := do
  if ← at_ "@" then
    let first ← decorator
    return first :: (← read .decorators)
  return []

/-- Reads the rest of a field of a class after its name. -/
def fieldTail (before : List Node) : Scan (List Node) := do
  let value ← when (← at_ "=") do
    let mark ← sign "="
    return [mark, ← one (.assignment false)]
  let definition ← node .fieldDefinition (before ++ value)
  return definition :: (← endStatement)

/-- Reads a member of a class: a semicolon, a static block, a method or a field. -/
def member : Scan (List Node) := do
  if ← at_ ";" then return [← sign ";"]
  let marks ← read .decorators
  if ← atWord "static" then
    -- `static` may as well be the name of a member, or a modifier
    let isBlock ← lookAhead do
      let _ ← keyword "static"
      return (← at_ "\x7b")
    if marks.isEmpty && isBlock.getD false then
      let word ← keyword "static"
      return [← node .staticBlock [word, ← one .block]]
  let mods ← modifiers
  let name ← propertyName
  if ← at_ "(" then return [← methodTail (marks ++ mods ++ [name])]
  check (mods.all fun m => m.leafText == "static".toList)
  fieldTail (marks ++ mods ++ [name])

def members : Scan (List Node) := do
  if (← head?) == some '\x7d' then return []
  let first ← member
  return first ++ (← read .members)

def heritage : Scan (List Node) := do
  when (← atWord "extends") do
    let word ← keyword "extends"
    return [← node .classHeritage [word, ← one (.assignment false)]]

/-- Reads a class after its decorators; a statement needs a name. -/
def classAfter (marks : List Node) (statement : Bool) : Scan Node := do
  let word ← keyword "class"
  let name ← when (statement || (← atName)) (return [← name .identifier])
  let base ← heritage
  let opening ← sign "\x7b"
  let inner ← read .members
  let body ← node .classBody (opening :: inner ++ [← char '\x7d'])
  let kind : Kind := if statement then .classDeclaration else .classExpression
  node kind (marks ++ word :: name ++ base ++ [body])

/-- Whether the class about to start has a name. -/
def classIsNamed : Scan Bool := do
  let named ← lookAhead do
    let _ ← keyword "class"
    atName
  return named.getD false

def functionIsNamed : Scan Bool := do
  let named ← lookAhead do
    let _ ← when (← atWord "async") (return [← keyword "async"])
    let _ ← keyword "function"
    let _ ← when (← at_ "*") (return [← sign "*"])
    atName
  return named.getD false

end Packwright.Syntax.Reader
