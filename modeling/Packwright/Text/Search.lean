import Packwright.Text.Blank
import Packwright.Text.Digit

/-!
# Finding and replacing, and integers in free form

* `replaceAll` exchanges every occurrence of a text, from left to right and without overlaps.
* `between` takes a stretch by two positions that may be counted from the end.
* `integer?` reads an integer as a person writes it: blanks around it, a sign, digits of any
  script, and single underscores between digits.
-/

namespace Packwright.Text

/-- Exchanges every occurrence of `old`; the first `skip` characters are passed over because they
belong to an occurrence that has been exchanged. -/
def replaceAllFrom (old new : List Char) : (skip : Nat) → List Char → List Char
  | _, [] => []
  | skip + 1, _ :: rest => replaceAllFrom old new skip rest
  | 0, c :: rest =>
    if old.isPrefixOf (c :: rest) then new ++ replaceAllFrom old new (old.length - 1) rest
    else c :: replaceAllFrom old new 0 rest

/-- Exchanges every occurrence of a text that is not empty. -/
def replaceAll (old new s : List Char) : List Char :=
  if old.isEmpty then s else replaceAllFrom old new 0 s

/-- Whether a text occurs in another. -/
def occursIn (part : List Char) : List Char → Bool
  | [] => part.isEmpty
  | c :: rest => part.isPrefixOf (c :: rest) || occursIn part rest

/-- A position counted from the start, or from the end if it is below zero. -/
def position (length : Nat) (i : Int) : Nat :=
  if 0 ≤ i then min i.toNat length else (length + i).toNat

/-- The stretch between two positions, empty if they are out of order. -/
def between {α : Type} (start stop : Int) (s : List α) : List α :=
  (s.take (position s.length stop)).drop (position s.length start)

/-- Digit values with single underscores between digits. -/
def groupedDigits? : List Char → Option (List Nat)
  | [] => none
  | [c] => (digit? c).map fun d => [d]
  | c :: '_' :: rest => do pure ((← digit? c) :: (← groupedDigits? rest))
  | c :: rest => do pure ((← digit? c) :: (← groupedDigits? rest))

/-- Whether a character may stand around an integer. -/
def isNumberBlank (c : Char) : Bool :=
  if c.toNat < 128 then isAsciiBlank c else isBlank c

/-- The integer that a text writes. -/
def integer? (s : List Char) : Option Int :=
  match trim isNumberBlank s with
  | '-' :: ds => (groupedDigits? ds).map fun ds => -(ofDigits 10 ds : Int)
  | '+' :: ds => (groupedDigits? ds).map fun ds => (ofDigits 10 ds : Int)
  | ds => (groupedDigits? ds).map fun ds => (ofDigits 10 ds : Int)

end Packwright.Text
