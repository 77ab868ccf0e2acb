import Packwright.Syntax.Program

/-!
# Sightings

A sighting is a stretch of a program that its reader looks at as a whole: a token, a comment, what a
probe is about. What stands between two sightings may be pulled apart by a comment without the
reader noticing; a comment inside of one may be read as something else.

* `sightings` lists all of a program, in the order in which they are made. What is looked at by an
  alternative that is given up, or ahead of a decision, is among them.
* The places at which a sighting starts and ends are not inside of it. A slash is looked at with the
  character behind it, since the two may start a comment, and a comment to the end of its line with
  the character that ends the line.
-/

namespace Packwright.Syntax

open Packwright.Text

/-- A stretch of bytes. -/
structure Span where
  start : Nat
  stop : Nat
  deriving Repr, DecidableEq

/-- Whether a place is inside a stretch and not at an end of it. -/
def Span.covers (span : Span) (place : Nat) : Prop :=
  span.start < place ∧ place < span.stop

instance (span : Span) (place : Nat) : Decidable (span.covers place) :=
  inferInstanceAs (Decidable (_ ∧ _))

namespace Cursor

def span (c : Cursor) (count : Nat) : Span :=
  ⟨c.offset, c.offset + Utf8.size (c.rest.take count)⟩

/-- What is looked at to pass over blanks and comments, with explicit fuel. -/
def skipSightingsFrom : (fuel : Nat) → Cursor → List Span
  | 0, _ => []
  | fuel + 1, c =>
    c.span (Lexeme.blankReach c.rest) ::
      if 0 < Lexeme.blankLength c.rest then
        skipSightingsFrom fuel (c.passBlank (Lexeme.blankLength c.rest))
      else []

def skipSightings (c : Cursor) : List Span :=
  skipSightingsFrom (c.rest.length + 1) c

end Cursor

/-- What a scan looks at; goals are answered by `calls` and look at what `seen` says. -/
def Scan.sightingsWith (calls : Goal → Cursor → Outcome (List Node))
    (seen : Goal → Cursor → List Span) {α : Type} : Scan α → Cursor → List Span
  | done _, _ => []
  | fail, _ => []
  | bind first next, c =>
    first.sightingsWith calls seen c ++
      match first.runWith calls c with
      | .done value d => (next value).sightingsWith calls seen d
      | _ => []
  | orElse first second, c =>
    first.sightingsWith calls seen c ++
      match first.runWith calls c with
      | .failed => second.sightingsWith calls seen c
      | _ => []
  | lookAhead inner, c => inner.sightingsWith calls seen c
  | call goal, c => seen goal c
  | look probe, c =>
    [(c.advance (probe.lead c.rest)).span (probe.reach c.rest - probe.lead c.rest)]
  | lineEnded, _ => []
  | take kind count, c =>
    c.span count ::
      match c.takeRaw? kind count with
      | some (_, d) => d.skipSightings
      | none => []
  | takeRaw _ count, c => [c.span (count + 1)]
  | pass count, c => c.span count :: (c.advance count).skipSightings
  | skip, c => c.skipSightings

/-- What the reader of a goal looks at, with explicit fuel. -/
def goalSightings : (fuel : Nat) → Goal → Cursor → List Span
  | 0, _, _ => []
  | fuel + 1, goal, c =>
    (Reader.ofGoal goal).sightingsWith (readGoal fuel) (goalSightings fuel) c

/-- What the reader of a program looks at. -/
def sightings (code : List Char) : List Span :=
  let fuel := fuelFor code.length
  let c := Cursor.atStart code
  c.skipSightings ++ program.sightingsWith (readGoal fuel) (goalSightings fuel) c.skip

end Packwright.Syntax
