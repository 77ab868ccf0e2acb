import Packwright.Template
import Packwright.Text.Lines
import Packwright.Text.Search

/-!
# Documentation comments

Runs of lines that start with three slashes become block comments, the form of comment that the
compiler keeps.

* `isDocLine` says which newline-terminated lines belong to a run, and `blocks` groups them.
* `Run.render` writes a run as one block: its indentation and an opening mark, every line without
  its marker, and a closing mark. A link to a place on the same page gets the address of the page
  in front, and a closing mark inside the text is defused.
* `mangle` does so for every run and leaves everything else alone. The address is a template
  (`Packwright.Template`), which is looked at only when there is a run.
-/

namespace Packwright.DocComment

open Packwright.Text

def isIndent (c : Char) : Bool :=
  c == ' ' || c == '\t'

def marker : List Char := ['/', '/', '/']

def isDocLine (line : List Char) : Bool :=
  marker.isPrefixOf (line.dropWhile isIndent)

/-- A stretch of lines: a run of documentation lines, or one other line. -/
inductive Block where
  | run (lines : List (List Char))
  | plain (line : List Char)
  deriving Repr, DecidableEq

/-- The lines in stretches, runs as long as possible. -/
def blocks : List (List Char) → List Block
  | [] => []
  | line :: rest =>
    if isDocLine line then
      match blocks rest with
      | .run lines :: more => .run (line :: lines) :: more
      | found => .run [line] :: found
    else .plain line :: blocks rest

/-- A line without its first marker and one space after it. -/
def dropMarker : List Char → List Char
  | [] => []
  | '/' :: '/' :: '/' :: ' ' :: rest => rest
  | '/' :: '/' :: '/' :: rest => rest
  | c :: rest => c :: dropMarker rest

def linkStart : List Char := "](#".toList

def closing : List Char := "*/".toList

/-- The end of a block comment with its slash escaped. -/
def defused : List Char := "*\\/".toList

/-- The template that a link start is replaced by. -/
def linkTemplate (baseUrl : List Char) : List Char :=
  "](".toList ++ baseUrl ++ ['#']

def textOfLines (lines : List (List Char)) : List Char :=
  (lines.map (· ++ ['\n'])).flatten

/-- The lines of a run inside the block: links completed, and on each line, at any line break of
Unicode, the marker dropped and the closing mark defused. -/
def body (link : List Char) (lines : List (List Char)) : List Char :=
  let linked := replaceAll linkStart link (textOfLines lines)
  ((pieces linked).map fun line => replaceAll closing defused (dropMarker line)).flatten

def renderRun (link : List Char) (lines : List (List Char)) : List Char :=
  let indent := (textOfLines lines).takeWhile isIndent
  indent ++ "/**\n".toList ++ body link lines ++ indent ++ "*/\n".toList

def Block.render (link : List Char) : Block → List Char
  | .run lines => renderRun link lines
  | .plain line => line ++ ['\n']

def Block.isRun : Block → Bool
  | .run _ => true
  | .plain _ => false

/-- The text with every run of documentation lines written as a block comment. -/
def mangleChars (baseUrl text : List Char) : Except Template.Error (List Char) :=
  let (lines, rest) := newlineLines text
  let found := blocks lines
  if found.any Block.isRun then do
    let template ← Template.parse (linkTemplate baseUrl)
    let link := Template.expand linkStart template
    pure (found.flatMap (Block.render link) ++ rest)
  else .ok text

/-- The text with every run of documentation lines written as a block comment. -/
def mangle (baseUrl text : String) : Except Template.Error String :=
  (mangleChars baseUrl.toList text.toList).map String.ofList

end Packwright.DocComment
