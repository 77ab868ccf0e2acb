import Packwright.Text.Lines
import Packwright.Text.Word

/-!
# Virtual paths

The keys of everything that is compiled or bundled in memory: paths with forward slashes and an
optional drive letter, in a normal form.

* `Anchor` says where a path starts: at the working directory, at the root, or at the doubled
  root, which is kept apart from the single one.
* `reduce` cancels a component against a following `..` and drops empty components and `.`.
* `normalize` splits off the drive, turns backslashes into slashes and reduces what is left.
* `sourcePathFor` and `compiledPath` lead from an output back to its source and on to an output.
-/

namespace Packwright.Path

open Packwright.Text

/-- Where a path starts. -/
inductive Anchor where
  | relative
  | rooted
  | doubled
  deriving Repr, DecidableEq, Inhabited

namespace Anchor

/-- The slashes that a path of this kind starts with. -/
def text : Anchor → List Char
  | relative => []
  | rooted => ['/']
  | doubled => ['/', '/']

/-- The start of a path; three slashes or more count as one. -/
def ofChars : List Char → Anchor
  | '/' :: '/' :: '/' :: _ => rooted
  | '/' :: '/' :: _ => doubled
  | '/' :: _ => rooted
  | _ => relative

def isAbsolute (a : Anchor) : Bool :=
  a != relative

end Anchor

/-! ## Components -/

/-- A component of a path. -/
abbrev Component := List Char

def here : Component := ['.']

def up : Component := ['.', '.']

def components (p : List Char) : List Component :=
  splitOn '/' p

/-- Takes one more component; the most recent component kept is at the head. At the root there is
nothing above, so a `..` is dropped there. -/
def reduceStep (absolute : Bool) (kept : List Component) (c : Component) : List Component :=
  if c = [] ∨ c = here then kept
  else if c = up then
    match kept with
    | [] => if absolute then [] else [up]
    | last :: before => if last = up then up :: kept else before
  else c :: kept

/-- The components that remain, in order. -/
def reduce (absolute : Bool) (cs : List Component) : List Component :=
  (cs.foldl (reduceStep absolute) []).reverse

/-- The text of an anchor and components; nothing at all is written as a single dot. -/
def render (anchor : Anchor) (cs : List Component) : List Char :=
  match anchor.text ++ joinWith '/' cs with
  | [] => here
  | text => text

/-- The normal form of a path without a drive. -/
def clean (p : List Char) : List Char :=
  let anchor := Anchor.ofChars p
  render anchor (reduce anchor.isAbsolute (components p))

/-! ## Drives and normal form -/

/-- Whether a path starts with a drive letter, a colon and a separator. -/
def startsWithDrive : List Char → Bool
  | letter :: ':' :: sep :: _ => letter.isAlpha && (sep == '/' || sep == '\\')
  | _ => false

def forwardSlashes (p : List Char) : List Char :=
  p.map fun c => if c = '\\' then '/' else c

/-- The normal form of a virtual path; the empty path is its own. -/
def normalizeChars (p : List Char) : List Char :=
  let p := forwardSlashes p
  if p.isEmpty then []
  else if startsWithDrive p then p.take 2 ++ clean (p.drop 2)
  else clean p

/-- The normal form of a virtual path; the empty path is its own. -/
def normalize (p : String) : String :=
  String.ofList (normalizeChars p.toList)

/-- Whether a module specifier names a path: relative, rooted or on a drive. -/
def isSpecifierChars (s : List Char) : Bool :=
  ['.', '/'].isPrefixOf s || ['.', '.', '/'].isPrefixOf s || ['/'].isPrefixOf s ||
  s == here || s == up || startsWithDrive s

def isSpecifier (s : String) : Bool :=
  isSpecifierChars s.toList

/-! ## Directory, base name, suffixes -/

/-- What stands up to the last slash, that slash included. -/
def headPart (p : List Char) : List Char :=
  dropAfterLast p
where
  /-- The text up to its last slash. -/
  dropAfterLast : List Char → List Char
    | [] => []
    | c :: rest =>
      match dropAfterLast rest with
      | [] => if c = '/' then [c] else []
      | kept => c :: kept

def baseNameChars (p : List Char) : List Char :=
  p.drop (headPart p).length

def dropSlashes (p : List Char) : List Char :=
  (p.reverse.dropWhile (· == '/')).reverse

/-- The directory part; slashes that are all there is stay as they are. -/
def parentChars (p : List Char) : List Char :=
  let head := headPart p
  if head.all (· == '/') then head else dropSlashes head

/-- The directory part; slashes that are all there is stay as they are. -/
def parent (p : String) : String :=
  String.ofList (parentChars p.toList)

def dropFinalNewline (s : List Char) : List Char :=
  if s.getLast? = some '\n' then s.dropLast else s

/-- Whether the base name ends in a dot and one or more word characters; one final newline is
overlooked. -/
def hasExtensionChars (p : List Char) : Bool :=
  let fromEnd := (dropFinalNewline (baseNameChars p)).reverse
  let word := fromEnd.takeWhile isWord
  !word.isEmpty && (fromEnd.drop word.length).head? == some '.'

def hasExtension (p : String) : Bool :=
  hasExtensionChars p.toList

/-- The text without a suffix, if it ends in it. -/
def stripSuffix? (suffix s : List Char) : Option (List Char) :=
  if suffix.isSuffixOf s then some (s.take (s.length - suffix.length)) else none

/-- The path with one ending exchanged for another, or the path itself if it ends otherwise. -/
def replaceSuffixChars (p old new : List Char) : List Char :=
  match stripSuffix? old p with
  | some stem => stem ++ new
  | none => p

def replaceSuffix (p old new : String) : String :=
  String.ofList (replaceSuffixChars p.toList old.toList new.toList)

/-! ## Sources and outputs -/

def sourceExtension : List Char := ".ts".toList

def moduleExtension : List Char := ".js".toList

def declarationExtension : List Char := ".d.ts".toList

/-- The source of a compiled module or declaration file; any other path is left alone. One final
newline is overlooked and kept. -/
def sourcePathForChars (p : List Char) : List Char :=
  let core := dropFinalNewline p
  let tail := p.drop core.length
  match stripSuffix? declarationExtension core, stripSuffix? moduleExtension core with
  | some stem, _ => stem ++ sourceExtension ++ tail
  | none, some stem => stem ++ sourceExtension ++ tail
  | none, none => p

/-- The source of a compiled module or declaration file; any other path is left alone. -/
def sourcePathFor (p : String) : String :=
  String.ofList (sourcePathForChars p.toList)

/-- The virtual path of what a source compiles to. -/
def compiledPathChars (source extension : List Char) : List Char :=
  replaceSuffixChars (normalizeChars source) sourceExtension extension

def compiledPath (source extension : String) : String :=
  String.ofList (compiledPathChars source.toList extension.toList)

end Packwright.Path
