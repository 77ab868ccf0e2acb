import Packwright.Syntax.Lexeme

/-!
# Looking at characters

What a reader may look at without consuming it. A probe is a question about the characters ahead;
there are no others.

* `Probe.answer` is what a reader learns.
* `Probe.reach` is how far it has to look for that: what stands behind has no influence, as long as
  a lexeme that ends there goes on ending there. What it looks at begins behind `Probe.lead`.
-/

namespace Packwright.Syntax

open Lexeme

/-- A question about the characters ahead, by the type of its answer. -/
inductive Probe : Type → Type where
  | head : Probe (Option Char)
  | word : Probe (List Char)
  | mark : Probe (List Char)
  | number : Probe Nat
  | string : Probe (Option Nat)
  | regex : Probe (Option Nat)
  | chunk : Probe (Option Nat)
  | privateName : Probe Nat
  | continuation : Probe Bool
  | markupComment : Probe Nat
  | hashBang : Probe Nat
  | elementName : Probe Nat
  | attributeText : Probe (Option Nat)
  | elementText : Probe Nat
  | closingTag : Probe Bool

namespace Probe

/-- The answer to a question. A word or a mark is empty if there is none. -/
def answer {α : Type} : Probe α → List Char → α
  | head, s => s.head?
  | word, s => s.take (nameLength s)
  | mark, s => (mark? s).getD []
  | number, s => numberLength s
  | string, s => stringLength? s
  | regex, s => regexLength? s
  | chunk, s => chunkLength? 0 s
  | privateName, s => nameLength (s.drop 1)
  | continuation, s => continuesStatement s
  | markupComment, s => markupCommentLength s
  | hashBang, s => hashBangLength s
  | elementName, s => elementNameLength s
  | attributeText, s => attributeTextLength? s
  | elementText, s => elementTextLength s
  | closingTag, s => isClosingTag s

/-! ## Reach -/

/-- A lexeme with a closing mark reaches to that mark, and to the end of everything if it is not
closed. -/
def closedReach (length? : Option Nat) (s : List Char) : Nat :=
  length?.getD s.length

/-- A line reaches to the character that ends it. -/
def lineReach : (length : Nat) → Nat
  | 0 => 0
  | n => n + 1

def startsString (s : List Char) : Bool :=
  s.head? == some '"' || s.head? == some '\''

/-- A mark reaches to its end. Whether a question mark has a point for itself depends on the
character behind that. -/
def markReach (s : List Char) : Nat :=
  if isChoiceOfFraction s then 3 else ((mark? s).getD []).length

/-- How many characters a question is about. -/
def reach {α : Type} : Probe α → List Char → Nat
  | head, _ => 1
  | word, s => nameLength s
  | mark, s => markReach s
  | number, s => numberLength s
  | string, s => if startsString s then closedReach (stringLength? s) s else 1
  | regex, s => closedReach (regexLength? s) s
  | chunk, s => closedReach ((chunkLength? 0 s).map (· + 2)) s
  | privateName, s => nameLength (s.drop 1) + 1
  | continuation, s => max (if pairsUp s then 2 else 1) (nameLength s)
  | markupComment, s => lineReach (markupCommentLength s)
  | hashBang, s => lineReach (hashBangLength s)
  | elementName, s => elementNameLength s
  | attributeText, s => if startsString s then closedReach (attributeTextLength? s) s else 1
  | elementText, s => elementTextLength s + 1
  | closingTag, s => (tagBlanks s).length + 2

/-- How many of these may stand apart from the others: the question mark before a fraction is what it
is without the fraction. -/
def lead {α : Type} : Probe α → List Char → Nat
  | mark, s => if isChoiceOfFraction s then 1 else 0
  | _, _ => 0

end Probe

end Packwright.Syntax
