import Packwright.SourceMap.Shift

/-!
# What a source map says

The mappings as numbers, and the places in the generated code that they talk of.

* A place is a line and a column of UTF-16 units; `placeAt` is the place of a character.
* The columns of a line are written relative to each other; `columns` adds them up.
* A segment designates the character that stands at its line and column.
-/

namespace Packwright.SourceMap

open Packwright.Text

/-- The fields of a segment; those of a line; those of all lines. -/
abbrev Segment : Type := List Int
abbrev Segments : Type := List Segment
abbrev Mappings : Type := List Segments

def decodeMappings (mappings : List Char) : Except Vlq.UnknownDigit Mappings :=
  (splitOn ';' mappings).mapM fun line => (splitOn ',' line).mapM Vlq.decodeChars

/-- The columns of the segments of a line, the one before them being `column`. A segment without
fields has none. -/
def columns (column : Int) : Segments → List (Option Int)
  | [] => []
  | [] :: rest => none :: columns column rest
  | (delta :: _) :: rest => some (column + delta) :: columns (column + delta) rest

/-- The column of a segment. -/
def columnAt? (m : Mappings) (line segment : Nat) : Option Int := do
  let segments ← m[line]?
  (← (columns 0 segments)[segment]?)

/-- A place in a text. -/
structure Place where
  line : Nat
  column : Nat
  deriving Repr, DecidableEq

namespace Place

def start : Place := ⟨0, 0⟩

def next (p : Place) (c : Char) : Place :=
  if c = '\n' then ⟨p.line + 1, 0⟩ else ⟨p.line, p.column + Utf16.charUnits c⟩

def after (p : Place) (s : List Char) : Place :=
  s.foldl next p

end Place

def placeAt (text : List Char) (i : Nat) : Place :=
  Place.start.after (text.take i)

/-- Whether a segment designates the character at an index of a text. -/
def Designates (m : Mappings) (line segment : Nat) (text : List Char) (i : Nat) : Prop :=
  i < text.length ∧ line = (placeAt text i).line ∧
    columnAt? m line segment = some ((placeAt text i).column : Int)

end Packwright.SourceMap
