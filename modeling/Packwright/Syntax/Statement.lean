import Packwright.Syntax.Expression

/-!
# Statements

Statements of every kind, among them the declarations that import and export.

* `statements` reads statements until none can start: at the end, at a closing brace, or at the
  next case of a switch.
* A statement that starts with a brace is a block; only where no block can be read is it an
  expression.
* A loop header is first tried as one over the elements or keys of a value.
-/

namespace Packwright.Syntax.Reader

open Scan

/-! ## Declarations -/

/-- Reads what a declaration binds: a name or a pattern with brackets. -/
def binding : Scan Node := do
  match ← head? with
  | some '[' | some '\x7b' =>
    match (← primary false).toPattern? with
    | some pattern => return pattern
    | none => failure
  | _ => name .identifier

/-- Reads the value that a declaration gives, if there is one. -/
def initializer (noIn : Bool) : Scan (List Node) := do
  when (← at_ "=") do
    let mark ← sign "="
    return [mark, ← one (.assignment noIn)]

/-- Reads declared names with their values and the commas between them. -/
def declarators (noIn : Bool) : Scan (List Node) := do
  let target ← binding
  let first ← node .variableDeclarator (target :: (← initializer noIn))
  if ← at_ "," then
    let comma ← sign ","
    return first :: comma :: (← read (.declarators noIn))
  return [first]

/-- The word that starts a declaration of variables, if one starts here. The word `let` does only
if something that can be declared stands behind it. -/
def declarationWord? : Scan (Option String) := do
  if ← atWord "var" then return some "var"
  if ← atWord "const" then return some "const"
  if ← atWord "let" then
    let declares ← lookAhead do
      let _ ← keyword "let"
      let c ← head?
      let w ← word
      let isOperator := w == "in".toList || w == "instanceof".toList
      return (c == some '[' || c == some '\x7b' || !w.isEmpty) && !isOperator
    if declares.getD false then return some "let"
  return none

def variableDeclaration (w : String) (noIn : Bool) : Scan Node := do
  let word ← keyword w
  let ds ← read (.declarators noIn)
  let kind : Kind := if w == "var" then .variableDeclaration else .lexicalDeclaration
  node kind (word :: ds ++ (← endStatement))

/-! ## Control -/

def ifStatement : Scan Node := do
  let word ← keyword "if"
  let condition ← parenthesized
  let yes ← one .statement
  let no ← when (← atWord "else") do
    let word ← keyword "else"
    return [← node .elseClause [word, ← one .statement]]
  node .ifStatement (word :: condition :: yes :: no)

def cases : Scan (List Node) := do
  if (← head?) == some '\x7d' then return []
  let first ← if ← atWord "case" then do
      let word ← keyword "case"
      let value ← one (.expression false)
      let colon ← sign ":"
      node .switchCase (word :: value :: colon :: (← read .statements))
    else do
      let word ← keyword "default"
      let colon ← sign ":"
      node .switchDefault (word :: colon :: (← read .statements))
  return first :: (← read .cases)

def switchStatement : Scan Node := do
  let word ← keyword "switch"
  let value ← parenthesized
  let opening ← sign "\x7b"
  let inner ← read .cases
  let body ← node .switchBody (opening :: inner ++ [← char '\x7d'])
  node .switchStatement [word, value, body]

/-- Reads a place on the left of a loop over elements or keys. -/
def loopPlace : Scan Node := do
  let base ← primary true
  let place ← one (.suffixes true base)
  match targetOf? place with
  | some target => return target
  | none => failure

/-- Reads the left side of a loop over elements or keys. -/
def loopTarget : Scan (List Node) := do
  if ← atWord "var" then
    let word ← keyword "var"
    let target ← binding
    return word :: target :: (← initializer true)
  match ← declarationWord? with
  | some w =>
    let word ← keyword w
    return [word, ← binding]
  | none => return [← loopPlace]

/-- Reads the rest of a loop over elements or keys, from its opening parenthesis on. -/
def loopOver (before : List Node) : Scan Node := do
  let opening ← sign "("
  let target ← loopTarget
  let op ← if ← atWord "of" then keyword "of" else keyword "in"
  let value ← one (.expression false)
  let closing ← char ')'
  let body ← one .statement
  node .forInStatement (before ++ opening :: target ++ [op, value, closing, body])

/-- Reads the first part of a counting loop with its semicolon. -/
def loopStart : Scan (List Node) := do
  if ← at_ ";" then return [← node .emptyStatement [← sign ";"]]
  match ← declarationWord? with
  | some w => return [← variableDeclaration w false]
  | none =>
    let value ← one (.expression false)
    return [value, ← sign ";"]

/-- Reads the condition of a counting loop with its semicolon. -/
def loopCondition : Scan (List Node) := do
  if ← at_ ";" then return [← node .emptyStatement [← sign ";"]]
  let value ← one (.expression false)
  return [value, ← sign ";"]

/-- Reads the rest of a counting loop, from its opening parenthesis on. -/
def loopCounting (before : List Node) : Scan Node := do
  let opening ← sign "("
  let start ← loopStart
  let condition ← loopCondition
  let increment ← when ((← head?) != some ')') (return [← one (.expression false)])
  let closing ← char ')'
  let body ← one .statement
  node .forStatement (before ++ opening :: start ++ condition ++ increment ++ [closing, body])

def forStatement : Scan Node := do
  let word ← keyword "for"
  if ← atWord "await" then
    let wait ← keyword "await"
    loopOver [word, wait]
  else loopOver [word] <|> loopCounting [word]

def whileStatement : Scan Node := do
  let word ← keyword "while"
  let condition ← parenthesized
  node .whileStatement [word, condition, ← one .statement]

def doStatement : Scan Node := do
  let word ← keyword "do"
  let body ← one .statement
  let again ← keyword "while"
  let condition ← parenthesized
  let semicolon ← when (← at_ ";") (return [← sign ";"])
  node .doStatement (word :: body :: again :: condition :: semicolon)

def tryStatement : Scan Node := do
  let word ← keyword "try"
  let body ← one .block
  let handler ← when (← atWord "catch") do
    let word ← keyword "catch"
    let parameter ← when (← at_ "(") do
      let opening ← sign "("
      let target ← binding
      return [opening, target, ← char ')']
    return [← node .catchClause (word :: parameter ++ [← one .block])]
  let finalizer ← when (← atWord "finally") do
    let word ← keyword "finally"
    return [← node .finallyClause [word, ← one .block]]
  node .tryStatement (word :: body :: handler ++ finalizer)

def withStatement : Scan Node := do
  let word ← keyword "with"
  let scope ← parenthesized
  node .withStatement [word, scope, ← one .statement]

/-- Reads a jump, with a label if one stands on the same line. -/
def jump (w : String) (kind : Kind) : Scan Node := do
  let word ← keyword w
  let label ← when ((← atName) && !(← lineEnded)) (return [← name .labelIdentifier])
  node kind (word :: label ++ (← endStatement))

/-- Reads a return, with a value unless the statement ends here. -/
def returnStatement : Scan Node := do
  let word ← keyword "return"
  let bare := (← at_ ";") || (← mayEndStatement)
  let value ← when (!bare) (return [← one (.expression false)])
  node .returnStatement (word :: value ++ (← endStatement))

def throwStatement : Scan Node := do
  let word ← keyword "throw"
  let value ← one (.expression false)
  node .throwStatement (word :: value :: (← endStatement))

/-! ## Modules -/

/-- Reads the name of something exported or imported: a word or a text. -/
def moduleName : Scan Node := do
  match ← look .string with
  | some n => take .string n
  | none => anyWord .identifier

def text : Scan Node := do
  match ← look .string with
  | some n => take .string n
  | none => failure

/-- Reads one name of a list, perhaps with another name for it. -/
def specifier (kind : Kind) : Scan Node := do
  let first ← moduleName
  let rename ← when (← atWord "as") do
    let word ← keyword "as"
    return [word, ← moduleName]
  node kind (first :: rename)

/-- Reads the names of a list up to the closing brace. -/
def specifiers (kind : Kind) : Scan (List Node) := do
  if (← head?) == some '\x7d' then return []
  let first ← specifier kind
  if ← at_ "," then
    let comma ← sign ","
    return first :: comma :: (← read (.specifiers kind))
  return [first]

def nameList (kind itemKind : Kind) : Scan Node := do
  let opening ← sign "\x7b"
  let inner ← read (.specifiers itemKind)
  node kind (opening :: inner ++ [← char '\x7d'])

/-- Reads the attributes of an import, if there are any. -/
def importAttributes : Scan (List Node) := do
  let w ← word
  let ended ← lineEnded
  when (w == "with".toList || (w == "assert".toList && !ended)) do
    let word ← take .token w.length
    return [← node .importAttribute [word, ← object]]

/-- Reads the module that something comes from, and the end of the statement. -/
def fromClause : Scan (List Node) := do
  let word ← keyword "from"
  let source ← text
  let attributes ← importAttributes
  return word :: source :: attributes ++ (← endStatement)

def namespaceName (kind : Kind) : Scan Node := do
  let star ← sign "*"
  let word ← keyword "as"
  node kind [star, word, ← moduleName]

/-- Reads the names that an import binds besides the default. -/
def importNames : Scan Node := do
  if ← at_ "*" then namespaceName .namespaceImport
  else nameList .namedImports .importSpecifier

def importStatement : Scan Node := do
  let word ← keyword "import" .importKeyword
  if (← look .string).isSome then
    let source ← text
    let attributes ← importAttributes
    return ← node .importStatement (word :: source :: attributes ++ (← endStatement))
  let parts ← if ← atName then do
      let first ← name .identifier
      if ← at_ "," then
        let comma ← sign ","
        pure [first, comma, ← importNames]
      else pure [first]
    else do pure [← importNames]
  let clause ← node .importClause parts
  node .importStatement (word :: clause :: (← fromClause))

/-- Whether the word `import` starts an expression here. -/
def importIsExpression : Scan Bool := do
  let expression ← lookAhead do
    let _ ← keyword "import"
    return (← at_ "(") || (← at_ ".")
  return expression.getD false

/-- Reads a declaration that may be exported or decorated. -/
def declaration (marks : List Node) : Scan Node := do
  if ← atWord "class" then return ← classAfter marks true
  check marks.isEmpty
  if ← atFunction then return ← function true
  match ← declarationWord? with
  | some w => variableDeclaration w false
  | none => failure

/-- Reads what a module exports by default: a declaration with a name, or an expression. A function
or class without a name needs no end of the statement. -/
def defaultExport (marks : List Node) : Scan (List Node) := do
  let named ← if ← atFunction then functionIsNamed
    else if ← atWord "class" then classIsNamed else pure false
  if named then return [← declaration marks]
  if !marks.isEmpty then return [← classAfter marks false]
  let value ← one (.assignment false)
  let isDefinition := value.kind == .functionExpression || value.kind == .generatorFunction ||
    value.kind == .classExpression
  let ending ← endStatement <|> (do check isDefinition; return [])
  return value :: ending

/-- Reads an export after its decorators. -/
def exportAfter (marks : List Node) : Scan Node := do
  let word ← keyword "export"
  let before := marks ++ [word]
  if ← atWord "default" then
    let word ← keyword "default"
    let more ← if (← at_ "@") then do
        let own ← read .decorators
        pure (own ++ (← defaultExport []))
      else defaultExport []
    return ← node .exportStatement (before ++ word :: more)
  if marks.isEmpty && (← at_ "*") then
    let whole ← (do return [← namespaceName .namespaceExport]) <|> (do return [← sign "*"])
    return ← node .exportStatement (before ++ whole ++ (← fromClause))
  if marks.isEmpty && (← at_ "\x7b") then
    let names ← nameList .exportClause .exportSpecifier
    let source ← if ← atWord "from" then fromClause else endStatement
    return ← node .exportStatement (before ++ names :: source)
  let own ← read .decorators
  node .exportStatement (before ++ [← declaration own])

def decorated : Scan Node := do
  let marks ← read .decorators
  if ← atWord "export" then return ← exportAfter marks
  if ← classIsNamed then return ← classAfter marks true
  let value ← classAfter marks false
  node .expressionStatement (value :: (← endStatement))

/-! ## Statements -/

def expressionStatement : Scan Node := do
  let value ← one (.expression false)
  node .expressionStatement (value :: (← endStatement))

def labeled : Scan Node := do
  let label ← name .labelIdentifier
  let colon ← sign ":"
  node .labeledStatement [label, colon, ← one .statement]

/-- Whether a label is about to start. -/
def atLabel : Scan Bool := do
  let found ← lookAhead do
    let _ ← name .labelIdentifier
    at_ ":"
  return found.getD false

/-- Reads a statement that starts with a word. -/
def wordStatement (w : List Char) : Scan Node := do
  match ← declarationWord? with
  | some w => return ← variableDeclaration w false
  | none => pure ()
  if ← atFunction then
    if ← functionIsNamed then return ← function true
    return ← expressionStatement
  match String.ofList w with
  | "class" =>
    if ← classIsNamed then classAfter [] true else expressionStatement
  | "if" => ifStatement
  | "switch" => switchStatement
  | "for" => forStatement
  | "while" => whileStatement
  | "do" => doStatement
  | "try" => tryStatement
  | "with" => withStatement
  | "break" => jump "break" .breakStatement
  | "continue" => jump "continue" .continueStatement
  | "debugger" =>
    let word ← keyword "debugger"
    node .debuggerStatement (word :: (← endStatement))
  | "return" => returnStatement
  | "throw" => throwStatement
  | "import" => if ← importIsExpression then expressionStatement else importStatement
  | "export" => exportAfter []
  | _ => if ← atLabel then labeled else expressionStatement

def statement : Scan Node := do
  skipMarkup
  let w ← word
  if !w.isEmpty then return ← wordStatement w
  if ← at_ ";" then return ← node .emptyStatement [← sign ";"]
  if ← at_ "@" then return ← decorated
  if ← at_ "\x7b" then return ← (one .block <|> expressionStatement)
  expressionStatement

/-- Reads statements until none can start. -/
def statements : Scan (List Node) := do
  skipMarkup
  if ← atEnd then return []
  if (← head?) == some '\x7d' then return []
  if (← atWord "case") || (← atWord "default") then return []
  let first ← statement
  return first :: (← read .statements)

end Packwright.Syntax.Reader
