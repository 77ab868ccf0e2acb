import Packwright.Dictionary
import Packwright.Path.Virtual

/-!
# The output store

What the compiler writes is kept in memory, by normalized virtual path, and read from there by the
bundler.

* A write that repeats the stored content is no change. A change puts its path on the list of
  pending paths, which has no repetitions and is in order of first change.
* A path that ends in `.map` holds the source map of the path before that ending. Maps are kept
  apart and are never pending.
-/

namespace Packwright

/-- Compiled files and source maps by path, and the paths changed since the last batch. -/
structure Store where
  files : Dictionary String String
  maps : Dictionary String String
  pending : List String
  deriving Repr, DecidableEq, Inhabited

namespace Store

def empty : Store := ⟨[], [], []⟩

/-- The ending of the path of a source map. -/
def mapSuffix : List Char := ".map".toList

/-- The path whose source map a path holds, if it is the path of one. -/
def mapOwner? (key : String) : Option String :=
  (Path.stripSuffix? mapSuffix key.toList).map String.ofList

/-- Whether a write would change what is stored; a source map never counts. -/
def isChange (s : Store) (path content : String) : Bool :=
  let key := Path.normalize path
  (mapOwner? key).isNone && s.files.get? key != some content

/-- A list with one more element at its end, unless it is there already. -/
def addOnce (paths : List String) (key : String) : List String :=
  if paths.contains key then paths else paths ++ [key]

/-- Stores the content of a path. -/
def write (s : Store) (path content : String) : Store :=
  let key := Path.normalize path
  match mapOwner? key with
  | some owner => { s with maps := s.maps.put owner content }
  | none =>
    if s.files.get? key = some content then s
    else { s with files := s.files.put key content, pending := addOnce s.pending key }

def read (s : Store) (path : String) : Option String :=
  s.files.get? (Path.normalize path)

def readMap (s : Store) (path : String) : Option String :=
  s.maps.get? (Path.normalize path)

def has (s : Store) (path : String) : Bool :=
  s.files.has (Path.normalize path)

def paths (s : Store) : List String :=
  s.files.keys

/-- The store after its pending paths have been taken. -/
def settle (s : Store) : Store :=
  { s with pending := [] }

def writeAll (s : Store) (writes : List (String × String)) : Store :=
  writes.foldl (fun s (path, content) => s.write path content) s

end Store

end Packwright
