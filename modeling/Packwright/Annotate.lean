import Packwright.SourceMap.Shift
import Packwright.Syntax.Program

/-!
# Marking pure calls

A bundle is annotated so that a later bundler may drop what is not used: every call and every
construction that runs when the module is loaded is marked as pure.

* `visitedCalls` walks a tree. What stands inside a function or the body of a class runs later and
  is left alone; arguments and callees are walked, so nested calls get marks of their own.
* `enumPatches` recognises a variable that is declared without a value and filled by a function
  called right behind the declaration. The two statements are fused into one declaration whose
  value is the call, so that it can be dropped as a whole.
* `annotate` applies the patches and moves the columns of a source map along.
-/

namespace Packwright.Annotate

open Packwright.Syntax
open Packwright.Text

def marker : String := "/*@__PURE__*/"

/-- How many bytes before a call the declaration of its variable may start. -/
def lookBehind : Nat := 100

/-- Why code cannot be annotated. -/
inductive Error where
  | malformed
  | patch (cause : Patch.Error)
  | undecodable (cause : Utf8.DecodeError)
  | sourceMap (cause : SourceMap.Error)
  deriving Repr, DecidableEq

def Error.message : Error → String
  | malformed => "Generated code contains syntax the annotator cannot parse."
  | patch cause => cause.message
  | undecodable cause => cause.message
  | sourceMap cause => cause.message

/-- Constructs whose inside runs only when they are called. -/
def isDeferred : Kind → Bool
  | .functionDeclaration | .generatorDeclaration | .functionExpression | .generatorFunction
  | .arrowFunction | .methodDefinition => true
  | _ => false

/-- Classes, whose heritage runs at once and whose body runs later. -/
def isClass : Kind → Bool
  | .classDeclaration | .classExpression => true
  | _ => false

def isCall : Kind → Bool
  | .callExpression | .newExpression => true
  | _ => false

/-! ## Variables filled by a call -/

/-- The expression inside any number of parentheses, with explicit fuel. -/
def stripParentheses : (fuel : Nat) → Node → Node
  | 0, n => n
  | fuel + 1, n =>
    match n.kind, n.named with
    | .parenthesized, [inner] => stripParentheses fuel inner
    | _, _ => n

def depthBound (n : Node) : Nat :=
  n.stop - n.start

def callee? (call : Node) : Option Node :=
  if call.kind == .callExpression then call.children.head? else none

/-- The arguments of a call: a list in parentheses or a template. -/
def arguments? (call : Node) : Option Node :=
  match call.part? .arguments with
  | some args => some args
  | none => (call.children.drop 1).find? fun c => c.kind == .templateString

/-- The name of the only parameter of a function. -/
def singleParameter? (function : Node) : Option (List Char) := do
  let ps ← function.part? .formalParameters
  match ps.named with
  | [p] => if p.kind == .identifier then some p.leafText else none
  | _ => none

/-- The name that the first argument of a call is, or that stands on its left if it is joined by an
operator. -/
def firstArgumentName? (call : Node) : Option (List Char) := do
  let args ← arguments? call
  let first ← args.named.head?
  let place ← if first.kind == .binary then first.children.head? else some first
  if place.kind == .identifier then some place.leafText else none

/-- Whether a byte is an ASCII letter, digit or underscore, or a dollar. -/
def isNameByte (b : UInt8) : Bool :=
  (0x30 ≤ b && b ≤ 0x39) || (0x41 ≤ b && b ≤ 0x5a) || (0x61 ≤ b && b ≤ 0x7a) || b == 0x5f ||
  b == 0x24

def isBlankByte (b : UInt8) : Bool :=
  b == 0x20 || (0x09 ≤ b && b ≤ 0x0d)

/-- The words that declare a variable, backwards. -/
def declaringWords : List (List UInt8) :=
  ["var", "let", "const"].map fun w => (Utf8.encode w).reverse

/-- A declaration of one variable without a value. -/
structure Declaration where
  name : List UInt8
  semicolon : Nat
  deriving Repr, DecidableEq

/-- The declaration that ends right before an offset, read backwards from there: blanks, a
semicolon, blanks, a name, blanks and a declaring word that is not the end of a longer one. The
word lies in the last `window` bytes. -/
def declarationBefore? (before : List UInt8) (window : Nat) : Option Declaration := do
  let back := before.reverse
  let atSemicolon := back.dropWhile isBlankByte
  guard (atSemicolon.head? == some 0x3b)
  let name := (atSemicolon.drop 1).dropWhile isBlankByte
  let nameBytes := name.takeWhile isNameByte
  guard !nameBytes.isEmpty
  let afterName := name.drop nameBytes.length
  let blanks := afterName.takeWhile isBlankByte
  guard !blanks.isEmpty
  let atWord := afterName.drop blanks.length
  let word ← declaringWords.find? fun w => w.isPrefixOf atWord
  let beyond := atWord.drop word.length
  guard !((beyond.head?.map isNameByte).getD false)
  guard (back.length - beyond.length ≤ window)
  return ⟨nameBytes.reverse, atSemicolon.length - 1⟩

/-- The patches that fuse the declaration of a variable with the call that fills it. -/
def enumPatches (code : List UInt8) (call : Node) : List Patch :=
  let found : Option (List Patch) := do
    let function ← (callee? call).map (stripParentheses (depthBound call))
    guard (function.kind == .functionExpression)
    let parameter ← singleParameter? function
    let declared ← declarationBefore? (code.take call.start) lookBehind
    let refers := (firstArgumentName? call).any fun name =>
      Utf8.encodeChars name == declared.name
    guard (declared.name == Utf8.encodeChars parameter || refers)
    let body ← function.part? .statementBlock
    return [Patch.replacement declared.semicolon (declared.semicolon + 1) " =",
      Patch.insertion (body.stop - 1) (";return " ++ String.ofList parameter ++ ";")]
  found.getD []

/-! ## Walking a tree -/

mutual

/-- The calls of a tree that run when the module is loaded, outer ones before inner ones. -/
def visitedCalls : Node → List Node
  | .leaf .. => []
  | .branch kind children =>
    if isDeferred kind then []
    else if isClass kind then visitedOutsideBody children
    else
      let inner := visitedInAll children
      if isCall kind then .branch kind children :: inner else inner

/-- The calls of some trees. -/
def visitedInAll : List Node → List Node
  | [] => []
  | n :: rest => visitedCalls n ++ visitedInAll rest

/-- The calls of the parts of a class, its body left out. -/
def visitedOutsideBody : List Node → List Node
  | [] => []
  | n :: rest =>
    if n.kind == .classBody then visitedOutsideBody rest
    else visitedCalls n ++ visitedOutsideBody rest

end

/-- Whether a call is marked; loading a module is not. -/
def isMarked (call : Node) : Bool :=
  (callee? call).map Node.kind != some .importKeyword

def callPatches (code : List UInt8) (call : Node) : List Patch :=
  if isMarked call then enumPatches code call ++ [Patch.insertion call.start marker] else []

def patches (code : List UInt8) (tree : Node) : List Patch :=
  (visitedCalls tree).flatMap (callPatches code)

/-! ## Annotating code -/

/-- The patches of some code; positions count bytes. -/
def patchesOfCode (code : String) : Except Error (List Patch) :=
  match parse? code.toList with
  | some tree => .ok (patches (Utf8.encode code) tree)
  | none => .error .malformed

/-- The code with patches applied that count bytes. -/
def applyToCode (code : String) (ps : List Patch) : Except Error String :=
  match Patch.applyToBytes (Utf8.encode code) ps with
  | .error cause => .error (.patch cause)
  | .ok bytes =>
    match Utf8.decode bytes with
    | .ok s => .ok s
    | .error cause => .error (.undecodable cause)

/-- The annotated code with its source map, if it has one. Code without patches keeps its map as it
is written. -/
def annotate (code : String) (map? : Option String) :
    Except Error (String × Option String) := do
  let ps ← patchesOfCode code
  if ps.isEmpty then return (code, map?)
  let annotated ← applyToCode code ps
  match map? with
  | none => return (annotated, none)
  | some document =>
    match SourceMap.shiftText document code ps with
    | .ok moved => return (annotated, some moved)
    | .error cause => .error (.sourceMap cause)

end Packwright.Annotate
