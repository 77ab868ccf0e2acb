import Packwright.Patch
import Packwright.SourceMap.Basic
import Packwright.Text.Lines
import Packwright.Text.Search
import Packwright.Text.Utf16

/-!
# Moving the columns of a source map

After patches have been applied to generated code, the segments of its source map have to move with
the code behind them.

* `Shift` is what one patch does to its line: from a column on, everything moves by a number of
  UTF-16 units.
* `shiftLine` moves the segments of one line: a segment moves by the sum of the shifts at or before
  its old column. Columns are relative to the segment before, so both the old and the new column of
  that segment are carried along.
* `shiftMap` does so on every line that has a shift and leaves every other line as it is written.
-/

namespace Packwright.SourceMap

open Packwright.Text

-- sums start at the zero of the core library, whatever other instances are in scope
attribute [local instance (high)] Zero.ofOfNat0

/-- From `column` on, a line moves by `delta`. -/
structure Shift where
  column : Nat
  delta : Int
  deriving Repr, DecidableEq

/-! ## What patches do to lines -/

def lineStarts (source : List UInt8) : List Nat :=
  0 :: startsFrom 1 source
where
  /-- The offsets after the newlines of the rest, of which the first byte has offset `i - 1`. -/
  startsFrom (i : Nat) : List UInt8 → List Nat
    | [] => []
    | b :: rest => if b = 0x0a then i :: startsFrom (i + 1) rest else startsFrom (i + 1) rest

/-- The number of the line that an offset lies on; before the first line it is below zero. -/
def lineOf (starts : List Nat) (offset : Int) : Int :=
  ((starts.filter fun (start : Nat) => (start : Int) ≤ offset).length : Int) - 1

/-- The element of a list at a position that is counted from the end if it is below zero. -/
def atPosition? {α : Type} (items : List α) (i : Int) : Option α :=
  if 0 ≤ i then items[i.toNat]?
  else if items.length < i.natAbs then none
  else items[items.length - i.natAbs]?

/-- What one patch does: the line it lies on, and its shift. -/
def shiftOf (source : List UInt8) (starts : List Nat) (p : Patch) : Int × Shift :=
  let line := lineOf starts p.start
  let start := (atPosition? starts line).getD 0
  let column := Utf16.unitsOfBytes (between start p.start source)
  let inserted := Utf16.units p.text.toList
  let removed := Utf16.unitsOfBytes (between p.start p.stop source)
  (line, ⟨column, (inserted : Int) - removed⟩)

/-- The shifts of every line that has any, lines in order of their first shift. -/
def shiftsByLine (source : List UInt8) (patches : List Patch) : Dictionary Int (List Shift) :=
  let starts := lineStarts source
  (Patch.sortPatches patches).foldl (fun lines p =>
    let (line, shift) := shiftOf source starts p
    if shift.delta = 0 then lines
    else Dictionary.put lines line ((Dictionary.get? lines line).getD [] ++ [shift])) []

/-! ## Segments -/

def shiftColumn (shifts : List Shift) (column : Int) : Int :=
  column + ((shifts.filter fun s => (s.column : Int) ≤ column).map Shift.delta).sum

/-- Moves the segments of a line; the two columns are the old and the new one of the last segment
that has any. -/
def shiftSegments (shifts : List Shift) (old new : Int) :
    List (List Char) → Except Vlq.UnknownDigit (List (List Char))
  | [] => .ok []
  | segment :: rest => do
    match ← Vlq.decodeChars segment with
    | [] => pure (segment :: (← shiftSegments shifts old new rest))
    | first :: more =>
      let old' := old + first
      let new' := shiftColumn shifts old'
      let moved := Vlq.encodeChars ((new' - new) :: more)
      pure (moved :: (← shiftSegments shifts old' new' rest))

def shiftLine (shifts : List Shift) (line : List Char) :
    Except Vlq.UnknownDigit (List Char) :=
  if line.isEmpty then .ok line
  else do pure (joinWith ',' (← shiftSegments shifts 0 0 (splitOn ',' line)))

/-- Moves the segments of the line at a position; a position outside the mappings is passed over. -/
def shiftLineAt (lines : List (List Char)) (at_ : Int × List Shift) :
    Except Vlq.UnknownDigit (List (List Char)) :=
  let (line, shifts) := at_
  match atPosition? lines line with
  | none => .ok lines
  | some content => do
    let moved ← shiftLine shifts content
    let i := if 0 ≤ line then line.toNat else lines.length - line.natAbs
    pure (lines.set i moved)

/-- Moves the segments of every line that has shifts. -/
def shiftMappings (shifts : Dictionary Int (List Shift)) (mappings : List Char) :
    Except Vlq.UnknownDigit (List Char) := do
  let lines ← shifts.foldlM shiftLineAt (splitOn ';' mappings)
  pure (joinWith ';' lines)

/-- The source map with its columns moved along with the patches of some code. -/
def shift (m : SourceMap) (code : List UInt8) (patches : List Patch) : Except Error SourceMap :=
  match shiftsByLine code patches with
  | [] => .ok m
  | shifts =>
    match shiftMappings shifts m.mappings.toList with
    | .ok mappings => .ok { m with mappings := String.ofList mappings }
    | .error unknown => .error (.unknownDigit unknown.digit)

/-- The document of a source map with its columns moved along with the patches of some code. -/
def shiftText (document code : String) (patches : List Patch) : Except Error String := do
  let m ← ofText document
  (← m.shift (Utf8.encode code) patches).toText

end Packwright.SourceMap
