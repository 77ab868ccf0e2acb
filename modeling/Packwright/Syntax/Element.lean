import Packwright.Syntax.Reader

/-!
# Elements

Markup inside expressions: elements with attributes and children, and fragments without a name.
Text between children is kept as it stands, so the readers here stop right behind a mark wherever
children follow.
-/

namespace Packwright.Syntax.Reader

open Scan

def namePart : Scan Node := do
  take .identifier (← look .elementName)

/-- Reads the parts of a name after some that have been read, joined by dots or colons. -/
def nameParts (parts : List Node) : Scan (List Node) := do
  if (← at_ ".") || (← at_ ":") then
    let joint ← take .token 1
    let next ← namePart
    read (.nameParts (parts ++ [joint, next]))
  else return parts

def elementName : Scan Node := do
  let first ← namePart
  match ← read (.nameParts [first]) with
  | [single] => return single
  | parts => node .elementName parts

/-- Reads an expression in braces and stops right behind it. It may be empty or a spread. -/
def elementExpression : Scan Node := do
  let opening ← sign "\x7b"
  if (← head?) == some '\x7d' then
    return ← node .elementExpression [opening, ← charRaw '\x7d']
  let inner ← if ← at_ "..." then item else one (.expression false)
  node .elementExpression [opening, inner, ← charRaw '\x7d']

def attributeText : Scan Node := do
  match ← look .attributeText with
  | some n => take .string n
  | none => failure

def attributeValue : Scan Node := do
  match (← head?) with
  | some '\x7b' =>
    let value ← elementExpression
    skip
    return value
  | some '<' =>
    let value ← one .element
    skip
    return value
  | _ => attributeText

def attributes : Scan (List Node) := do
  match (← head?) with
  | some '\x7b' =>
    let spread ← elementExpression
    skip
    return spread :: (← read .attributes)
  | some c =>
    if c == '>' || c == '/' then return []
    let name ← elementName
    let value ← when ((← head?) == some '=') do
      let mark ← char '='
      return [mark, ← attributeValue]
    let first ← node .attribute (name :: value)
    return first :: (← read .attributes)
  | none => failure

/-- Reads the children of an element up to the mark of its closing tag. -/
def elementChildren : Scan (List Node) := do
  let n ← look .elementText
  let text ← when (n != 0) (return [← takeRaw .elementText n])
  match ← head? with
  | some '<' =>
    if ← look .closingTag then return text
    let child ← one .element
    return text ++ child :: (← read .elementChildren)
  | some '\x7b' =>
    let child ← elementExpression
    return text ++ child :: (← read .elementChildren)
  | _ => failure

def element : Scan Node := do
  let opening ← char '<'
  let isFragment := (← head?) == some '>'
  let name ← when (!isFragment) (return [← elementName])
  let attributes ← when (!isFragment) (read .attributes)
  if (← head?) == some '/' then
    let slash ← char '/'
    return ← node .selfClosingElement (opening :: name ++ attributes ++ [slash, ← charRaw '>'])
  let tag ← node .openingElement (opening :: name ++ attributes ++ [← charRaw '>'])
  let children ← read .elementChildren
  let less ← char '<'
  let slash ← char '/'
  let closingName ← when ((← head?) != some '>') (return [← elementName])
  -- blanks behind an element are text of the one around it, so they are not skipped
  let closing ← node .closingElement (less :: slash :: closingName ++ [← charRaw '>'])
  node .element (tag :: children ++ [closing])

end Packwright.Syntax.Reader
