import Packwright.Path.Virtual

/-!
# File paths

Paths of files on disk as they are written. Empty components and `.` are dropped when a path is
read; `..` stays, because what is above a directory depends on links.

* `ofString` and `toString` translate; the path without components is written as a single dot.
* `parent`, `name`, `child` and `withSuffix` take a path apart and put one together.
-/

namespace Packwright

open Packwright.Path

/-- A file path: where it starts and its components. -/
structure FilePath where
  anchor : Anchor
  parts : List String
  deriving Repr, DecidableEq, Inhabited

namespace FilePath

/-- The path that a text writes. -/
def ofString (s : String) : FilePath :=
  let cs := (components s.toList).filter fun c => c ≠ [] ∧ c ≠ here
  ⟨.ofChars s.toList, cs.map String.ofList⟩

def toString (p : FilePath) : String :=
  String.ofList (render p.anchor (p.parts.map String.toList))

def ofLocation (location : List String) : FilePath :=
  ⟨.rooted, location⟩

/-- A path seen from another one; an absolute path stands for itself. -/
def join (p q : FilePath) : FilePath :=
  if q.anchor = .relative then ⟨p.anchor, p.parts ++ q.parts⟩ else q

/-- The path that a text writes, seen from another path. -/
def child (p : FilePath) (s : String) : FilePath :=
  p.join (ofString s)

def parent (p : FilePath) : FilePath :=
  ⟨p.anchor, p.parts.dropLast⟩

def name (p : FilePath) : String :=
  p.parts.getLast?.getD ""

/-- A name without its suffix: what stands before the last dot, unless that dot is the first or the
last character. -/
def stem (name : List Char) : List Char :=
  let suffix := (name.reverse.takeWhile (· ≠ '.')).reverse
  let head := name.take (name.length - suffix.length - 1)
  if suffix.isEmpty || head.isEmpty then name else head

/-- The path with the suffix of its name exchanged for another one. -/
def withSuffix (p : FilePath) (suffix : String) : FilePath :=
  let name := String.ofList (stem p.name.toList) ++ suffix
  ⟨p.anchor, p.parts.dropLast ++ [name]⟩

end FilePath

end Packwright
