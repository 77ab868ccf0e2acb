import Packwright.Syntax.Statement

/-!
# Programs

Ties the knot of the grammar and reads whole programs.

* `Reader.ofGoal` sends every goal to its reader; `readGoal` runs it, and a goal that it calls is run
  with one unit of fuel less.
* `parse?` gives enough fuel for any program: between two steps that consume a character there are
  only a few that do not.
* A program is well formed if it is read to its end and no field with a default is left outside a
  pattern.
-/

namespace Packwright.Syntax

open Scan Reader

/-- The reader of a goal. -/
def Reader.ofGoal : Goal → Scan (List Node)
  | .markup => do skipMarkup; return []
  | .statements => statements
  | .statement => return [← statement]
  | .block => return [← block]
  | .cases => cases
  | .expression noIn => return [← expression noIn]
  | .assignment noIn => return [← assignment noIn]
  | .binary noIn least => binary noIn least
  | .binaryTail noIn least left => binaryTail noIn least left
  | .unary noIn => return [← unary noIn]
  | .operand noIn => return [← operand noIn]
  | .callee => callee
  | .suffixes calls base => suffixes calls base
  | .elements closing => elements closing
  | .fields => fields
  | .members => members
  | .specifiers kind => specifiers kind
  | .declarators noIn => declarators noIn
  | .decorators => decorators
  | .path base => path base
  | .chunks => chunks
  | .element => return [← element]
  | .nameParts parts => nameParts parts
  | .attributes => attributes
  | .elementChildren => elementChildren

def readGoal : (fuel : Nat) → Goal → Cursor → Outcome (List Node)
  | 0, _, _ => .exhausted
  | fuel + 1, goal, c => (Reader.ofGoal goal).runWith (readGoal fuel) c

def program : Scan Node := do
  let n ← look .hashBang
  let bang ← when (n != 0) (return [← take .hashBang n])
  let statements ← read .statements
  check (← atEnd)
  node .program (bang ++ statements)

/-- Fuel enough for a program of a given length. -/
def fuelFor (length : Nat) : Nat :=
  16 * (length + 4)

/-- The tree of a program, if it is well formed. -/
def parse? (code : List Char) : Option Node :=
  match program.runWith (readGoal (fuelFor code.length)) (Cursor.atStart code).skip with
  | .done tree c => if tree.hasKind .coverInitializer then none else some (tree.located c.starts)
  | _ => none

end Packwright.Syntax
