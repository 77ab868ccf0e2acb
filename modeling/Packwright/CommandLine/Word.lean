import Packwright.Text.Digit
import Packwright.Text.Quoted
import Packwright.Text.Search

/-!
# Words of a command line

What the words of a command line are, before anything is done with them.

* An option may be written in full or as the start of a name that only one option has, with or
  without a value after an equals sign.
* A word with a minus that could be a negative number, or that holds a space, is plain; so is every
  word after the divider `--`.
* `classify` fails only on a start that several options share.
-/

namespace Packwright.CommandLine

/-- What an option is about. -/
inductive Topic where
  | help
  | workspace
  | sourceMaps
  | noAnnotations
  | debounce
  | eventLog
  | extra
  deriving Repr, DecidableEq

/-- An option: its names, its topic, and whether a value follows. -/
structure OptionRule where
  names : List String
  topic : Topic
  takesValue : Bool
  deriving Repr, DecidableEq

/-- A value that is written together with an option: behind an equals sign, or right behind the
letter of a short option. -/
structure Attached where
  text : String
  behindSign : Bool
  deriving Repr, DecidableEq

/-- A word of a command line. An option keeps the name it was recognized by, if any, and a value
that was written with it. -/
inductive Word where
  | plain (written : String)
  | divider
  | known (rule : OptionRule) (name : String) (value? : Option Attached)
  | unknown (written : String)
  deriving Repr, DecidableEq

/-- What is wrong with a command line. -/
inductive UsageError where
  | ambiguous (written : String) (names : List String)
  | missingValue (rule : OptionRule)
  | unexpectedValue (rule : OptionRule) (value : String)
  | badInteger (rule : OptionRule) (value : String)
  | badCommand (written : String)
  | missingWord (name : String)
  | unrecognized (words : List String)
  deriving Repr, DecidableEq

def OptionRule.title (rule : OptionRule) : String :=
  "/".intercalate rule.names

def commandNames : List String := ["build", "watch"]

def UsageError.message : UsageError → String
  | ambiguous written names =>
    s!"ambiguous option: {written} could match " ++ ", ".intercalate names
  | missingValue rule => s!"argument {rule.title}: expected one argument"
  | unexpectedValue rule value =>
    s!"argument {rule.title}: ignored explicit argument " ++ Text.quoted value
  | badInteger rule value => s!"argument {rule.title}: invalid int value: " ++ Text.quoted value
  | badCommand written =>
    "argument command: invalid choice: " ++ Text.quoted written ++ " (choose from " ++
      ", ".intercalate (commandNames.map Text.quoted) ++ ")"
  | missingWord name => s!"the following arguments are required: {name}"
  | unrecognized words => "unrecognized arguments: " ++ " ".intercalate words

def namesOf (rules : List OptionRule) : List (String × OptionRule) :=
  rules.flatMap fun rule => rule.names.map fun name => (name, rule)

def find? (rules : List OptionRule) (name : String) : Option OptionRule :=
  ((namesOf rules).find? fun (n, _) => n = name).map Prod.snd

/-- Splits a word at its first equals sign. -/
def splitValue (written : List Char) : List Char × Option Attached :=
  let name := written.takeWhile (· ≠ '=')
  match written.drop name.length with
  | [] => (name, none)
  | _ :: value => (name, some ⟨String.ofList value, true⟩)

/-- The options that a word may stand for by the start of its name. A word with one minus may also
be a short option with its value right behind. -/
def candidates (rules : List OptionRule) (written : List Char) :
    List (OptionRule × String × Option Attached) :=
  let starting (start : List Char) (value? : Option Attached) (name : String) (rule : OptionRule) :=
    if start.isPrefixOf name.toList then some (rule, name, value?) else none
  match written with
  | '-' :: '-' :: _ =>
    let (start, value?) := splitValue written
    (namesOf rules).filterMap fun (name, rule) => starting start value? name rule
  | _ =>
    (namesOf rules).filterMap fun (name, rule) =>
      if name.toList = written.take 2 then
        some (rule, name, some ⟨String.ofList (written.drop 2), false⟩)
      else starting written none name rule

/-- Whether a word is a minus and a decimal number. -/
def isNegativeNumber (written : List Char) : Bool :=
  let isDigit (c : Char) : Bool := (Text.digit? c).isSome
  let body := match written.getLast? with
    | some '\n' => written.dropLast
    | _ => written
  match body with
  | '-' :: number =>
    let whole := number.takeWhile isDigit
    match number.drop whole.length with
    | [] => !whole.isEmpty
    | '.' :: fraction => !fraction.isEmpty && fraction.all isDigit
    | _ => false
  | _ => false

/-- What a word is that is not behind the divider. -/
def classifyOne (rules : List OptionRule) (written : String) : Except UsageError Word :=
  match written.toList with
  | '-' :: c :: rest =>
    match find? rules written with
    | some rule => .ok (.known rule written none)
    | none =>
      -- a name that is not known as it stands may have a value behind it, or be shortened
      let (name, value?) := splitValue ('-' :: c :: rest)
      match value?, find? rules (String.ofList name) with
      | some value, some rule => .ok (.known rule (String.ofList name) (some value))
      | _, _ =>
        match candidates rules ('-' :: c :: rest) with
        | [(rule, name, value?)] => .ok (.known rule name value?)
        | [] =>
          if isNegativeNumber written.toList || written.toList.contains ' ' then
            .ok (.plain written)
          else .ok (.unknown written)
        | several => .error (.ambiguous written (several.map fun (_, name, _) => name))
  | _ => .ok (.plain written)

def classify (rules : List OptionRule) : List String → Except UsageError (List Word)
  | [] => .ok []
  | written :: rest =>
    if written = "--" then .ok (.divider :: rest.map .plain)
    else do
      let word ← classifyOne rules written
      let words ← classify rules rest
      pure (word :: words)

def Word.text : Word → String
  | plain written => written
  | divider => "--"
  | known _ name _ => name
  | unknown written => written

def Word.isOption : Word → Bool
  | known .. => true
  | unknown _ => true
  | _ => false

end Packwright.CommandLine
