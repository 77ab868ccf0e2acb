import Packwright.Syntax.Probe
import Packwright.Syntax.Tree

/-!
# Reading position

A cursor stands at the start of a token, blanks and comments before it passed over, or right behind
a token where what follows is no token. It knows its byte offset, whether a line has ended since the
last token, and where the tokens started that it has passed.

* `skip` passes over blanks and comments.
* `takeRaw?` consumes a token and stops right behind it; `take?` passes over the blanks after it,
  too. The leaf that a token becomes holds the number of the token, not its offset.
-/

namespace Packwright.Syntax

open Packwright.Text

/-- A position between tokens. -/
structure Cursor where
  rest : List Char
  offset : Nat
  lineEnded : Bool
  starts : Array Nat
  deriving Repr, DecidableEq

namespace Cursor

def advance (c : Cursor) (count : Nat) : Cursor :=
  { c with rest := c.rest.drop count, offset := c.offset + Utf8.size (c.rest.take count) }

/-- Passes over a blank or comment, in which a line may end. -/
def passBlank (c : Cursor) (count : Nat) : Cursor :=
  { c.advance count with
    lineEnded := c.lineEnded || (c.rest.take count).any Lexeme.isLineEnd }

/-- Passes over blanks and comments, with explicit fuel. -/
def skipFrom : (fuel : Nat) → Cursor → Cursor
  | 0, c => c
  | fuel + 1, c =>
    if 0 < Lexeme.blankLength c.rest then skipFrom fuel (c.passBlank (Lexeme.blankLength c.rest))
    else c

def skip (c : Cursor) : Cursor :=
  skipFrom c.rest.length c

def atStart (s : List Char) : Cursor :=
  ⟨s, 0, false, #[]⟩

/-- Consumes a token of at least one character. -/
def takeRaw? (kind : Kind) (count : Nat) (c : Cursor) : Option (Node × Cursor) :=
  if 0 < count ∧ count ≤ c.rest.length then
    some (.leaf kind c.starts.size (c.rest.take count),
      { c.advance count with lineEnded := false, starts := c.starts.push c.offset })
  else none

end Cursor

end Packwright.Syntax
