import Packwright.Syntax.Lexeme
import Packwright.Text.Utf8

/-!
# Comments woven into a program

A text with a comment put in at some places. Places count the bytes of the text as it was.
-/

namespace Packwright.Syntax

/-- A block comment on one line: it is closed by its own end, and no line ends in it. -/
structure Comment where
  body : List Char
  closed : ∀ s, Lexeme.blockLength? (body ++ s) = some body.length
  oneLine : body.any Lexeme.isLineEnd = false

def Comment.text (comment : Comment) : List Char :=
  '/' :: '*' :: comment.body

/-- A text that starts at `offset`, with a comment before every character at a marked place. -/
def weave (comment : Comment) (marked : Nat → Bool) (offset : Nat) : List Char → List Char
  | [] => []
  | c :: rest =>
    (if marked offset then comment.text else []) ++
      c :: weave comment marked (offset + c.utf8Size) rest

/-- The same without a comment before the first character. -/
def weaveBehind (comment : Comment) (marked : Nat → Bool) (offset : Nat) : List Char → List Char
  | [] => []
  | c :: rest => c :: weave comment marked (offset + c.utf8Size) rest

end Packwright.Syntax
