import Packwright.Syntax.Tree

/-!
# Patterns

What stands on the left of an assignment, and the parameters of a function, are read as expressions
first and turned into patterns when the mark behind them shows that they are.

* `Node.toPattern?` turns an expression into a pattern, if it can be one.
* A field with a default is an object pattern's alone; it is read as a `coverInitializer`, and one
  that is left over makes the program malformed.
-/

namespace Packwright.Syntax.Node

/-- Whether an expression is a place as it stands. -/
def isPlace (n : Node) : Bool :=
  match n.kind with
  | .identifier | .undefined | .memberExpression | .subscriptExpression => true
  | _ => false

/-- Whether an expression can be the target of an assignment that keeps the old value. -/
def isUpdatable (n : Node) : Bool :=
  n.isPlace || n.kind == .parenthesized

mutual

/-- The pattern that an expression is, if it can be one. -/
def toPattern? : Node → Option Node
  | leaf kind start text =>
    match kind with
    | .identifier | .undefined => some (leaf kind start text)
    | _ => none
  | branch kind children =>
    match kind with
    | .memberExpression | .subscriptExpression | .assignmentPattern | .objectPattern
    | .arrayPattern | .parenthesized => some (branch kind children)
    | .assignment => some (branch .assignmentPattern children)
    | .object => do pure (branch .objectPattern (← toFields? children))
    | .array => do pure (branch .arrayPattern (← toElements? children))
    | .spread => do pure (branch .restPattern (← toElements? children))
    | _ => none

/-- The elements of an array pattern. -/
def toElements? : List Node → Option (List Node)
  | [] => some []
  | n :: rest => do
    let more ← toElements? rest
    if n.kind == .token then pure (n :: more) else pure ((← toPattern? n) :: more)

/-- The value of a field as a pattern, its name and its colon left as they are. -/
def toFieldValue? : List Node → Option (List Node)
  | [] => some []
  | [value] => do pure [← toPattern? value]
  | n :: rest => do pure (n :: (← toFieldValue? rest))

/-- The fields of an object pattern. -/
def toFields? : List Node → Option (List Node)
  | [] => some []
  | n :: rest => do
    let more ← toFields? rest
    match n with
    | leaf .shorthandIdentifier start text =>
      pure (leaf .shorthandPatternIdentifier start text :: more)
    | leaf .token start text => pure (leaf .token start text :: more)
    | branch .pair children =>
      pure (branch .pairPattern (← toFieldValue? children) :: more)
    | branch .coverInitializer children =>
      pure (branch .objectAssignmentPattern children :: more)
    | branch .spread children =>
      pure (branch .restPattern (← toElements? children) :: more)
    | _ => none

end

/-- A parameter: a pattern, perhaps with a default. -/
def toParameter? (n : Node) : Option Node :=
  if n.kind == .parenthesized then none else toPattern? n

end Packwright.Syntax.Node
