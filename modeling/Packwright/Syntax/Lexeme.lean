import Packwright.Text.Digit

/-!
# Lexemes

How far each class of token reaches at the head of the characters. Every function returns a number
of characters, and zero or nothing when no token of the class is there.

* `nameLength` : names, with escapes. A name may hold any character that is no control, blank or
  mark of the language.
* `numberLength` : numbers in all their forms.
* `stringLength?`, `regexLength?`, `chunkLength?` : texts, patterns, and the plain stretches of
  templates.
* `elementNameLength`, `attributeTextLength?`, `elementTextLength` : the lexemes of markup.
* `mark?` : the longest mark of punctuation.
* `blankLength` : white space and comments.
-/

namespace Packwright.Syntax.Lexeme

open Packwright.Text

/-! ## Blanks -/

/-- Blanks beyond those of ASCII. -/
def isWideBlank (c : Char) : Bool :=
  let n := c.toNat
  n == 0xa0 || n == 0x1680 || (0x2000 ≤ n && n ≤ 0x200b) || n == 0x2028 || n == 0x2029 ||
  n == 0x202f || n == 0x205f || n == 0x2060 || n == 0x3000 || n == 0xfeff

/-- White space between tokens. -/
def isBlank (c : Char) : Bool :=
  c == ' ' || (0x09 ≤ c.toNat && c.toNat ≤ 0x0d) || isWideBlank c

/-- Characters that end a line, so that a statement may end there. -/
def isLineEnd (c : Char) : Bool :=
  c == '\n' || c.toNat == 0x2028 || c.toNat == 0x2029

/-- Characters that end a comment that runs to the end of its line. -/
def endsLineComment (c : Char) : Bool :=
  isLineEnd c || c == '\r'

/-- The length of a block comment without its opening mark, if it is closed. -/
def blockLength? : List Char → Option Nat
  | [] => none
  | c :: rest =>
    if c = '*' ∧ rest.head? = some '/' then some 2 else (blockLength? rest).map (· + 1)

def lineLength (s : List Char) : Nat :=
  (s.takeWhile fun c => !endsLineComment c).length

def blankLength (s : List Char) : Nat :=
  if s.take 2 = ['/', '/'] then lineLength (s.drop 2) + 2
  else if s.take 2 = ['/', '*'] then ((blockLength? (s.drop 2)).map (· + 2)).getD 0
  else if s.head?.any isBlank then 1 else 0

/-- How many characters tell the length of a blank or comment at the head. A comment to the end of
its line is looked at with the character that ends the line, a slash with the character behind it,
and a block comment that is not closed up to the end of everything. -/
def blankReach (s : List Char) : Nat :=
  if s.take 2 = ['/', '/'] then lineLength (s.drop 2) + 3
  else if s.take 2 = ['/', '*'] then ((blockLength? (s.drop 2)).map (· + 2)).getD s.length
  else if s.head? = some '/' then 2 else 1

def markedLineLength (openings : List String) (ends : Char → Bool) (s : List Char) : Nat :=
  if openings.any fun m => m.toList.isPrefixOf s then (s.takeWhile fun c => !ends c).length else 0

/-- The length of the line that tells a shell how to run the program. -/
def hashBangLength : List Char → Nat :=
  markedLineLength ["#!"] endsLineComment

/-- The length of a markup comment at the head; it runs to the end of its line. -/
def markupCommentLength : List Char → Nat :=
  markedLineLength ["<!--", "-->"] isLineEnd

/-! ## Names -/

/-- The ASCII marks, which no name holds. -/
def marks : List Char := ":;`\"'@#.,|^&<=>+-*/\\%?!~()[]\x7b\x7d".toList

def isNameChar (c : Char) : Bool :=
  0x20 < c.toNat && !isBlank c && !marks.contains c

def isHex (c : Char) : Bool :=
  (hexDigit? c).isSome

/-- The length of digits with a closing brace behind them. -/
def bracedDigitsLength (s : List Char) : Nat :=
  let n := (s.takeWhile isHex).length
  if 0 < n ∧ (s.drop n).head? = some '\x7d' then n + 1 else 0

/-- The length of an escape by number after its backslash: four digits, or any number of them in
braces. -/
def numberEscapeLength : List Char → Nat
  | 'u' :: '\x7b' :: rest =>
    match bracedDigitsLength rest with
    | 0 => 0
    | n => n + 2
  | 'u' :: rest => if 4 ≤ (rest.takeWhile isHex).length then 5 else 0
  | _ => 0

/-- The length of one character of a name, an escape counting as a whole. -/
def namePartLength : List Char → Nat
  | '\\' :: rest =>
    match numberEscapeLength rest with
    | 0 => 0
    | n => n + 1
  | c :: _ => if isNameChar c then 1 else 0
  | [] => 0

/-- The length of the longest stretch of name characters; `skip` characters are part of one that
has been counted. -/
def nameTailLength : (skip : Nat) → List Char → Nat
  | _, [] => 0
  | skip + 1, _ :: rest => nameTailLength skip rest + 1
  | 0, c :: rest =>
    match namePartLength (c :: rest) with
    | 0 => 0
    | n + 1 => nameTailLength n rest + 1

/-- The length of the name at the head; a name does not start with a digit. -/
def nameLength : List Char → Nat
  | c :: rest => if c.isDigit then 0 else nameTailLength 0 (c :: rest)
  | [] => 0

/-- The words that cannot be names. -/
def reserved : List (List Char) :=
  ["break", "case", "catch", "class", "const", "continue", "debugger", "default", "delete", "do",
   "else", "export", "extends", "false", "finally", "for", "function", "if", "import", "in",
   "instanceof", "new", "null", "return", "super", "switch", "this", "throw", "true", "try",
   "typeof", "var", "void", "while", "with"].map String.toList

def isReserved (word : List Char) : Bool :=
  reserved.contains word

/-! ## Numbers -/

/-- The length of digits with single underscores between them. -/
def groupedLength (isDigit : Char → Bool) : List Char → Nat
  | [] => 0
  | c :: rest =>
    if isDigit c || (c == '_' && rest.head?.any isDigit) then groupedLength isDigit rest + 1 else 0

def digitsLength (isDigit : Char → Bool) (s : List Char) : Nat :=
  if s.head? = some '_' then 0 else groupedLength isDigit s

def signLength (s : List Char) : Nat :=
  if s.head? = some '+' ∨ s.head? = some '-' then 1 else 0

def exponentLength : List Char → Nat
  | e :: rest =>
    let n := digitsLength Char.isDigit (rest.drop (signLength rest))
    if (e = 'e' ∨ e = 'E') ∧ 0 < n then n + signLength rest + 1 else 0
  | [] => 0

/-- The digits that a letter after a zero announces. -/
def radixDigit? (letter : Char) : Option (Char → Bool) :=
  match letter.toLower with
  | 'x' => some isHex
  | 'o' => some fun c => '0' ≤ c && c ≤ '7'
  | 'b' => some fun c => c == '0' || c == '1'
  | _ => none

/-- The length of a number with a letter for its base. -/
def radixLength : List Char → Nat
  | '0' :: letter :: rest =>
    match radixDigit? letter with
    | none => 0
    | some isDigit =>
      let n := digitsLength isDigit rest
      if n = 0 then 0 else n + 2
  | _ => 0

/-- Whether whole digits may be followed by a point or an exponent: they do not start with two
zeros, nor with a zero and an underscore. -/
def takesFraction : List Char → Bool
  | '0' :: c :: _ => '1' ≤ c && c ≤ '9'
  | _ => true

def scaledLength (s : List Char) : Nat :=
  let n := digitsLength Char.isDigit s
  n + exponentLength (s.drop n)

/-- The length of what follows the whole digits of a number: a point with more digits, an exponent,
or both. -/
def fractionLength : List Char → Nat
  | '.' :: rest => scaledLength rest + 1
  | rest => exponentLength rest

def decimalLength (s : List Char) : Nat :=
  let n := digitsLength Char.isDigit s
  if n = 0 then
    if s.head? = some '.' ∧ 0 < digitsLength Char.isDigit (s.drop 1) then scaledLength (s.drop 1) + 1
    else 0
  else if takesFraction (s.take n) then n + fractionLength (s.drop n)
  else n

/-- The length of the number at the head; whole digits may end in the letter of big integers. -/
def numberLength (s : List Char) : Nat :=
  let radix := radixLength s
  let whole := digitsLength Char.isDigit s
  if 0 < radix then if (s.drop radix).head? = some 'n' then radix + 1 else radix
  else if 0 < whole ∧ (s.drop whole).head? = some 'n' then whole + 1
  else decimalLength s

/-! ## Texts, patterns, templates -/

def escapeLength : List Char → Nat
  | [] => 0
  | c :: rest =>
    if c = '\r' then if rest.head? = some '\n' then 2 else 1
    else if c = 'x' then if 2 ≤ (rest.takeWhile isHex).length then 3 else 0
    else if c = 'u' then numberEscapeLength (c :: rest)
    else 1

/-- How many characters belong to a character of a text because it starts an escape; nothing if the
escape is malformed. -/
def escaped? (c : Char) (rest : List Char) : Option Nat :=
  if c = '\\' then if 0 < escapeLength rest then some (escapeLength rest) else none
  else some 0

/-- The length of the rest of a text with its closing quote; `skip` characters belong to an
escape. -/
def stringTailLength? (quote : Char) : (skip : Nat) → List Char → Option Nat
  | _, [] => none
  | skip + 1, _ :: rest => (stringTailLength? quote skip rest).map (· + 1)
  | 0, c :: rest =>
    if c = quote then some 1
    else if c = '\n' ∨ c = '\r' then none
    else (escaped? c rest).bind fun n => (stringTailLength? quote n rest).map (· + 1)

def stringLength? : List Char → Option Nat
  | '"' :: rest => (stringTailLength? '"' 0 rest).map (· + 1)
  | '\'' :: rest => (stringTailLength? '\'' 0 rest).map (· + 1)
  | _ => none

/-- Whether a pattern is inside brackets behind a character of it. -/
def bracketsAfter (inBrackets escaped : Bool) (c : Char) : Bool :=
  if escaped || c == '\\' then inBrackets else if inBrackets then c != ']' else c == '['

/-- The length of the rest of a pattern with its closing slash. Inside brackets a slash does not
close it. -/
def patternTailLength? : (inBrackets escaped : Bool) → List Char → Option Nat
  | _, _, [] => none
  | inBrackets, escaped, c :: rest =>
    if c = '\n' then none
    else if c == '/' && !inBrackets && !escaped then some 1
    else
      (patternTailLength? (bracketsAfter inBrackets escaped c) (!escaped && c == '\\') rest).map
        (· + 1)

/-- The length of the pattern at the head, with its flags; it is not empty. -/
def regexLength? : List Char → Option Nat
  | [] => none
  | c :: rest =>
    if c = '/' ∧ rest.head? ≠ some '/' then
      (patternTailLength? false false rest).map fun n =>
        n + 1 + ((rest.drop n).takeWhile fun c => 'a' ≤ c && c ≤ 'z').length
    else none

/-- Whether the plain stretch of a template ends here. -/
def endsChunk (s : List Char) : Bool :=
  s.head? == some '`' || s.take 2 == "$\x7b".toList

/-- The length of the plain stretch of a template at the head, up to its end or to a substitution;
nothing when an escape is malformed or the template does not end. -/
def chunkLength? : (skip : Nat) → List Char → Option Nat
  | _, [] => none
  | skip + 1, _ :: rest => (chunkLength? skip rest).map (· + 1)
  | 0, c :: rest =>
    if endsChunk (c :: rest) then some 0
    else (escaped? c rest).bind fun n => (chunkLength? n rest).map (· + 1)

/-! ## Markup -/

/-- The length of the name of an element or attribute: a name that may hold hyphens. -/
def elementNameLength (s : List Char) : Nat :=
  let n := nameLength s
  if n = 0 then 0 else n + ((s.drop n).takeWhile fun c => isNameChar c || c == '-').length

/-- The length of the text of an attribute; it has no escapes. -/
def attributeTextLength? : List Char → Option Nat
  | quote :: s =>
    let n := (s.takeWhile (· != quote)).length
    if (quote == '"' || quote == '\'') && (s.drop n).head? == some quote then some (n + 2) else none
  | [] => none

def isElementText (c : Char) : Bool :=
  !"<>\x7b\x7d".toList.contains c

def elementTextLength (s : List Char) : Nat :=
  (s.takeWhile isElementText).length

def tagBlanks (s : List Char) : List Char :=
  (s.drop 1).takeWhile isBlank

def isClosingTag (s : List Char) : Bool :=
  (s.drop (1 + (tagBlanks s).length)).head? == some '/'

/-! ## Marks -/

/-- The marks of punctuation, longer ones before those that start them. -/
def punctuation : List (List Char) :=
  [">>>=", "...", "===", "!==", "**=", "<<=", ">>=", ">>>", "&&=", "||=", "??=", "=>", "==", "!=",
   "<=", ">=", "&&", "||", "??", "?.", "++", "--", "+=", "-=", "*=", "/=", "%=", "&=", "|=", "^=",
   "<<", ">>", "**", "\x7b", "\x7d", "(", ")", "[", "]", ";", ",", "<", ">", "+", "-", "*", "/",
   "%", "&", "|", "^", "!", "~", "?", ":", "=", ".", "@", "#", "`"].map String.toList

/-- Whether a question mark is followed by a number that starts with its point. -/
def isChoiceOfFraction (s : List Char) : Bool :=
  s.take 2 == "?.".toList && (s.drop 2).head?.any Char.isDigit

/-- The longest mark at the head. The mark of an optional chain is not read before a digit. -/
def mark? (s : List Char) : Option (List Char) :=
  if isChoiceOfFraction s then some ['?'] else punctuation.find? fun m => m.isPrefixOf s

/-- Whether the first two characters ahead count as one: a point with a digit, a sign with itself,
or the mark of an inequality. -/
def pairsUp : List Char → Bool
  | c :: d :: _ =>
    (c == '.' && d.isDigit) || ((c == '+' || c == '-') && d == c) || (c == '!' && d == '=')
  | _ => false

/-- Whether the characters after a line end go on with a statement that could end there. -/
def continuesStatement (s : List Char) : Bool :=
  match s.head? with
  | none => false
  | some c =>
    if c == '!' then pairsUp s
    else if c == '.' || c == '+' || c == '-' then !pairsUp s
    else
      "`,:;*%><=[(?^|&/".toList.contains c ||
        (let w := s.take (nameLength s)
         w == "in".toList || w == "instanceof".toList)

end Packwright.Syntax.Lexeme
