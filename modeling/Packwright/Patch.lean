import Packwright.Text.Utf8

/-!
# Patches

Positional edits of a text or of its bytes, applied in a single pass from left to right.

* `sortPatches` orders patches by their start, keeps the order of patches that start together, and
  drops a patch that repeats the start and the text of the one before it.
* `applyPatches` is generic in what it edits: `encode` turns the text of a patch into elements of
  the source. It fails on overlapping and on misplaced patches, with the offending positions.
-/

namespace Packwright

/-- Inserts `text` at `start`, in place of what stands up to `stop?` if that is given. -/
structure Patch where
  start : Int
  text : String
  stop? : Option Int
  deriving Repr, DecidableEq, Inhabited

namespace Patch

def insertion (start : Nat) (text : String) : Patch :=
  ⟨start, text, none⟩

def replacement (start stop : Nat) (text : String) : Patch :=
  ⟨start, text, some stop⟩

def stop (p : Patch) : Int :=
  p.stop?.getD p.start

/-- Why patches cannot be applied. -/
inductive Error where
  | overlap (start cursor : Int)
  | outOfBounds (start stop : Int)
  deriving Repr, DecidableEq

def Error.message : Error → String
  | overlap start cursor => s!"Patch at {start} overlaps a replacement ending at {cursor}"
  | outOfBounds start stop => s!"Patch range {start}-{stop} is out of bounds"

def sameInsertion (p q : Patch) : Bool :=
  p.start == q.start && p.text == q.text

/-- Drops every patch that repeats the one before it. -/
def dropRepeats : List Patch → List Patch
  | [] => []
  | [p] => [p]
  | p :: q :: rest =>
    if sameInsertion p q then dropRepeats (p :: rest) else p :: dropRepeats (q :: rest)
termination_by ps => ps.length

/-- The patches by position, without repetitions. -/
def sortPatches (patches : List Patch) : List Patch :=
  dropRepeats (patches.mergeSort fun p q => p.start ≤ q.start)

/-- Applies sorted patches to the rest of a source of which `cursor` elements are behind. -/
def applyFrom {α : Type} (encode : String → List α) (length cursor : Int) (rest : List α) :
    List Patch → Except Error (List α)
  | [] => .ok rest
  | p :: more =>
    if p.start < cursor then .error (.overlap p.start cursor)
    else if p.stop < p.start ∨ p.stop > length then .error (.outOfBounds p.start p.stop)
    else
      let kept := rest.take (p.start - cursor).toNat
      let after := rest.drop (p.stop - cursor).toNat
      (applyFrom encode length p.stop after more).map fun tail => kept ++ encode p.text ++ tail

def applyPatches {α : Type} (encode : String → List α) (source : List α)
    (patches : List Patch) : Except Error (List α) :=
  applyFrom encode source.length 0 source (sortPatches patches)

/-- The text with every patch applied; positions count characters. -/
def applyToText (source : String) (patches : List Patch) : Except Error String :=
  (applyPatches String.toList source.toList patches).map String.ofList

/-- The bytes with every patch applied; positions count bytes. -/
def applyToBytes (source : List UInt8) (patches : List Patch) : Except Error (List UInt8) :=
  applyPatches Text.Utf8.encode source patches

/-- Where the bytes that `applyToBytes` yields come from: each has its offset in the source, or none
if it comes from a patch. -/
def origins (source : List UInt8) (patches : List Patch) : Except Error (List (Option Nat)) :=
  applyPatches (fun text => (Text.Utf8.encode text).map fun _ => none)
    ((List.range source.length).map some) patches

end Patch

end Packwright
