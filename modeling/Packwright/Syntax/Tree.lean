import Packwright.Text.Utf8

/-!
# Concrete syntax trees

The tree of a program keeps every token of it, comments and blanks apart, and where it stands in
bytes.

* `Kind` names the constructs. A leaf of the kind `token` is a keyword or a mark; all other nodes
  are named.
* Only leaves are placed; a construct starts where its first leaf does and ends where its last one
  does. `Node.start` and `Node.stop` are byte offsets into the program.
* While a program is read its leaves are numbered, and `Node.located` puts them in their places when
  it has been read.
* `Node.tokens` is the view of a tree as the list of its leaves.
-/

namespace Packwright.Syntax

/-- The constructs of the language. -/
inductive Kind where
  -- leaves
  | token | identifier | propertyIdentifier | privateIdentifier | shorthandIdentifier
  | shorthandPatternIdentifier | labelIdentifier | undefined | this | super | importKeyword
  | null | true | false | number | string | regex | fragment | hashBang | optionalChain
  | elementText | attributeName
  -- expressions
  | sequence | assignment | augmentedAssignment | assignmentPattern | objectAssignmentPattern
  | coverInitializer | awaitExpression | yieldExpression | unary | binary | ternary | update
  | newExpression | callExpression | memberExpression | subscriptExpression | arguments | spread
  | restPattern | parenthesized | object | objectPattern | array | arrayPattern | pair | pairPattern
  | computedName | templateString | templateSubstitution | metaProperty | functionExpression
  | generatorFunction | arrowFunction | methodDefinition | formalParameters | classExpression
  | classHeritage | classBody | fieldDefinition | staticBlock | decorator
  -- elements
  | element | openingElement | closingElement | selfClosingElement | attribute | elementExpression
  | elementName
  -- statements
  | program | expressionStatement | variableDeclaration | lexicalDeclaration | variableDeclarator
  | statementBlock | ifStatement | elseClause | switchStatement | switchBody | switchCase
  | switchDefault | forStatement | forInStatement | whileStatement | doStatement | tryStatement
  | catchClause | finallyClause | withStatement | breakStatement | continueStatement
  | debuggerStatement | returnStatement | throwStatement | emptyStatement | labeledStatement
  | functionDeclaration | generatorDeclaration | classDeclaration | exportStatement | exportClause
  | exportSpecifier | namespaceExport | importStatement | importClause | namedImports
  | importSpecifier | namespaceImport | importAttribute
  deriving Repr, DecidableEq, Inhabited

/-- A node: a leaf with its text, or a construct with its parts in order. -/
inductive Node where
  | leaf (kind : Kind) (start : Nat) (text : List Char)
  | branch (kind : Kind) (children : List Node)
  deriving Repr, Inhabited

namespace Node

def kind : Node → Kind
  | leaf kind .. => kind
  | branch kind .. => kind

mutual

def start : Node → Nat
  | leaf _ start _ => start
  | branch _ children => startOfFirst children

/-- The byte offset at which the first of some nodes starts. -/
def startOfFirst : List Node → Nat
  | [] => 0
  | n :: _ => start n

end

mutual

def stop : Node → Nat
  | leaf _ start text => start + Text.Utf8.size text
  | branch _ children => stopOfLast children

/-- The byte offset at which the last of some nodes ends. -/
def stopOfLast : List Node → Nat
  | [] => 0
  | [n] => stop n
  | _ :: n :: rest => stopOfLast (n :: rest)

end

def children : Node → List Node
  | leaf .. => []
  | branch _ children => children

def isNamed (n : Node) : Bool :=
  n.kind != .token

def named (n : Node) : List Node :=
  n.children.filter isNamed

def part? (n : Node) (kind : Kind) : Option Node :=
  n.children.find? fun c => c.kind == kind

def leafText : Node → List Char
  | leaf _ _ text => text
  | branch .. => []

mutual

/-- A tree with its numbered leaves in their places. -/
def located (places : Array Nat) : Node → Node
  | leaf kind number text => leaf kind (places.getD number 0) text
  | branch kind children => branch kind (allLocated places children)

/-- Some trees with their numbered leaves in their places. -/
def allLocated (places : Array Nat) : List Node → List Node
  | [] => []
  | n :: rest => located places n :: allLocated places rest

end

/-- A tree without the places of its leaves. -/
def unplaced (n : Node) : Node :=
  n.located #[]

mutual

/-- The leaves of a tree in order. -/
def tokens : Node → List Node
  | leaf kind start text => [leaf kind start text]
  | branch _ children => tokensOfAll children

/-- The leaves of some trees in order. -/
def tokensOfAll : List Node → List Node
  | [] => []
  | n :: rest => tokens n ++ tokensOfAll rest

end

mutual

def hasKind (kind : Kind) : Node → Bool
  | leaf k _ _ => k == kind
  | branch k children => k == kind || anyHasKind kind children

def anyHasKind (kind : Kind) : List Node → Bool
  | [] => Bool.false
  | n :: rest => hasKind kind n || anyHasKind kind rest

end

end Node

end Packwright.Syntax
