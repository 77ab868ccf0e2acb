import Packwright.Syntax.Tree

/-!
# Goals of the grammar

The constructs that a reader can ask for while it reads another one. A goal yields the list of nodes
that a construct contributes to its parent.
-/

namespace Packwright.Syntax

/-- A construct that can be asked for. Where `noIn` holds, the word `in` is no operator. -/
inductive Goal where
  | markup
  | statements
  | statement
  | block
  | cases
  | expression (noIn : Bool)
  | assignment (noIn : Bool)
  | binary (noIn : Bool) (least : Nat)
  | binaryTail (noIn : Bool) (least : Nat) (left : Node)
  | unary (noIn : Bool)
  | operand (noIn : Bool)
  | callee
  | suffixes (calls : Bool) (base : Node)
  | elements (closing : Char)
  | fields
  | members
  | specifiers (kind : Kind)
  | declarators (noIn : Bool)
  | decorators
  | path (base : Node)
  | chunks
  | element
  | nameParts (parts : List Node)
  | attributes
  | elementChildren
  deriving Repr, Inhabited

end Packwright.Syntax
