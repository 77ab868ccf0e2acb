import Packwright.CommandLine.Word
import Packwright.Config.Merge

/-!
# Reading a command line

A command line has options of the program, a command, entries, and options of the command. Options
and entries of a command may be mixed, but the entries stand together.

* `Invocation` is what a command line asks for.
* `parse` reads one, or says why the program stops: because help is asked for, or because the
  command line cannot be understood.
-/

namespace Packwright.CommandLine

/-- The commands. -/
inductive Command where
  | build
  | watch
  deriving Repr, DecidableEq, Inhabited

def Command.name : Command → String
  | build => "build"
  | watch => "watch"

def Command.ofName? (name : String) : Option Command :=
  [build, watch].find? fun c => c.name = name

/-- What a command line asks for. -/
structure Invocation where
  workspace : String
  sourceMaps : Bool
  noAnnotations : Bool
  debounceMs? : Option Int
  eventLog? : Option String
  command : Command
  entries : List String
  extra : List String
  deriving Repr, DecidableEq, Inhabited

/-- The program, or the program with a command. -/
structure Program where
  command? : Option Command
  deriving Repr, DecidableEq, Inhabited

def Program.name (p : Program) : String :=
  match p.command? with
  | none => "buildtool"
  | some c => "buildtool " ++ c.name

/-- Why a program stops before it has started. -/
inductive Stop where
  | help (program : Program)
  | usage (program : Program) (cause : UsageError)
  deriving Repr, DecidableEq

/-- The help for the program, or for the program with a command. -/
def Program.help (p : Program) : String :=
  "\n".intercalate <|
    match p.command? with
    | none => [
      "usage: buildtool [-h] [--workspace WORKSPACE] [--sourcemap] [--no-pure]",
      "                 [--debounce-ms DEBOUNCE_MS] [--event-log EVENT_LOG]",
      "                 \x7bbuild,watch\x7d ...",
      "",
      "positional arguments:",
      "  \x7bbuild,watch\x7d",
      "    build               compile and bundle once",
      "    watch               rebuild units as their sources change",
      "",
      "options:",
      "  -h, --help            show this help message and exit",
      "  --workspace WORKSPACE",
      "  --sourcemap",
      "  --no-pure",
      "  --debounce-ms DEBOUNCE_MS",
      "  --event-log EVENT_LOG"]
    | some .build => [
      "usage: buildtool build [-h] entries [entries ...]",
      "",
      "positional arguments:",
      "  entries",
      "",
      "options:",
      "  -h, --help  show this help message and exit"]
    | some .watch => [
      "usage: buildtool watch [-h] [--extra EXTRA] entries [entries ...]",
      "",
      "positional arguments:",
      "  entries",
      "",
      "options:",
      "  -h, --help     show this help message and exit",
      "  --extra EXTRA"]

/-- What the program says when it stops: the help that is asked for, or what is wrong. -/
def Stop.text : Stop → String
  | help program => program.help
  | usage program cause => program.name ++ ": error: " ++ cause.message

def Stop.status : Stop → Nat
  | help _ => 0
  | usage .. => 2

/-! ## Options -/

def helpRule : OptionRule := ⟨["-h", "--help"], .help, false⟩

/-- The options of the program. -/
def programRules : List OptionRule := [
  helpRule,
  ⟨["--workspace"], .workspace, true⟩,
  ⟨["--sourcemap"], .sourceMaps, false⟩,
  ⟨["--no-pure"], .noAnnotations, false⟩,
  ⟨["--debounce-ms"], .debounce, true⟩,
  ⟨["--event-log"], .eventLog, true⟩]

/-- The options of a command. -/
def Command.rules : Command → List OptionRule
  | build => [helpRule]
  | watch => [helpRule, ⟨["--extra"], .extra, true⟩]

def Invocation.initial : Invocation :=
  ⟨".", false, false, none, none, .build, [], []⟩

/-- Reads an integer, of a bounded number of digits. -/
def readInteger? (value : String) : Option Int :=
  if 4300 < (value.toList.filter fun c => (Text.digit? c).isSome).length then none
  else Text.integer? value.toList

/-- Puts an option into effect. -/
def applyOption (program : Program) (rule : OptionRule) (value : String) (i : Invocation) :
    Except Stop Invocation :=
  match rule.topic with
  | .help => .error (.help program)
  | .workspace => .ok { i with workspace := value }
  | .sourceMaps => .ok { i with sourceMaps := true }
  | .noAnnotations => .ok { i with noAnnotations := true }
  | .debounce =>
    match readInteger? value with
    | some ms => .ok { i with debounceMs? := some ms }
    | none => .error (.usage program (.badInteger rule value))
  | .eventLog => .ok { i with eventLog? := some value }
  | .extra => .ok { i with extra := i.extra ++ [value] }

def isShort (name : String) : Bool :=
  match name.toList with
  | '-' :: '-' :: _ => false
  | _ => true

/-- The value that the letters behind a short option are for the next. -/
def attachedTo : List Char → Option Attached
  | [] => none
  | '=' :: value => some ⟨String.ofList value, true⟩
  | value => some ⟨String.ofList value, false⟩

/-- The options that stand together behind one minus, each a letter; only the last may take a value.
A letter that is none ends them. -/
def cluster (rules : List OptionRule) (rule : OptionRule) :
    List Char → Except UsageError (List (OptionRule × Option Attached))
  | [] => .ok [(rule, none)]
  | '-' :: rest => .error (.unexpectedValue rule (String.ofList ('-' :: rest)))
  | c :: rest =>
    match find? rules (String.ofList ['-', c]) with
    | none => .ok [(rule, none)]
    | some next =>
      if next.takesValue then .ok [(rule, none), (next, attachedTo rest)]
      else match rest with
        | '=' :: value => .error (.unexpectedValue next (String.ofList value))
        | _ => (cluster rules next rest).map ((rule, none) :: ·)

/-- The options that a word stands for, with their values as far as the word gives them. -/
def expand (rules : List OptionRule) (rule : OptionRule) (name : String)
    (value? : Option Attached) : Except UsageError (List (OptionRule × Option String)) :=
  match value? with
  | none => .ok [(rule, none)]
  | some value =>
    if rule.takesValue then .ok [(rule, some value.text)]
    else if !isShort name || value.behindSign || value.text.isEmpty then
      .error (.unexpectedValue rule value.text)
    else (cluster rules rule value.text.toList).map fun options =>
      options.map fun (rule, value?) => (rule, value?.map Attached.text)

/-- Puts options into effect. The value of an option that has none yet is the next word, which has
to be plain; yields the words that are left. -/
def applyAll (program : Program) :
    List (OptionRule × Option String) → List Word → Invocation →
      Except Stop (Invocation × List Word)
  | [], words, i => .ok (i, words)
  | (rule, value?) :: rest, words, i =>
    match rule.takesValue, value?, words with
    | true, none, .plain value :: words => do
      applyAll program rest words (← applyOption program rule value i)
    | true, none, _ => .error (.usage program (.missingValue rule))
    | _, _, _ => do
      applyAll program rest words (← applyOption program rule (value?.getD "") i)

def readOption (program : Program) (rules : List OptionRule) (rule : OptionRule) (name : String)
    (value? : Option Attached) (words : List Word) (i : Invocation) :
    Except Stop (Invocation × List Word) := do
  let options ← (expand rules rule name value?).mapError (.usage program)
  applyAll program options words i

/-! ## The words of a command -/

/-- The words as entries: the first divider among them only divides. -/
def entriesOf (words : List Word) : List String :=
  (words.erase .divider).map Word.text

/-- Reads the words of a command, with explicit fuel; yields the invocation and the words that
nothing is known of. -/
def readCommand (program : Program) (rules : List OptionRule) :
    (fuel : Nat) → (taken : Bool) → List Word → Invocation → List String →
      Except Stop (Invocation × List String)
  | 0, _, _, i, unknown => .ok (i, unknown)
  | fuel + 1, taken, words, i, unknown =>
    match words with
    | [] =>
      if taken then .ok (i, unknown) else .error (.usage program (.missingWord "entries"))
    | .unknown written :: rest =>
      readCommand program rules fuel taken rest i (unknown ++ [written])
    | .known rule name value? :: rest => do
      let (i, rest) ← readOption program rules rule name value? rest i
      readCommand program rules fuel taken rest i unknown
    | _ =>
      -- the first run of plain words is the entries, unless it is a divider alone
      let run := words.takeWhile fun w => !w.isOption
      let rest := words.drop run.length
      if taken || run = [.divider] then
        readCommand program rules fuel taken rest i (unknown ++ run.map Word.text)
      else readCommand program rules fuel true rest { i with entries := entriesOf run } unknown

/-! ## The words of the program -/

def startCommand (written : String) (rest : List String) (i : Invocation) :
    Except Stop (Invocation × List String) :=
  match Command.ofName? written with
  | none => .error (.usage ⟨none⟩ (.badCommand written))
  | some command => do
    let program : Program := ⟨some command⟩
    let words ← (classify command.rules rest).mapError (.usage program)
    let start := { i with command := command }
    readCommand program command.rules (words.length + 1) false words start []

/-- Reads the words of the program, with explicit fuel; `written` are the same words as they were
written. -/
def readProgram : (fuel : Nat) → List Word → (written : List String) → Invocation → List String →
    Except Stop (Invocation × List String)
  | 0, _, _, i, unknown => .ok (i, unknown)
  | fuel + 1, words, written, i, unknown =>
    match words with
    | [] => .error (.usage ⟨none⟩ (.missingWord "command"))
    | .unknown w :: rest => readProgram fuel rest (written.drop 1) i (unknown ++ [w])
    | .known rule name value? :: rest => do
      let (i, left) ← readOption ⟨none⟩ programRules rule name value? rest i
      readProgram fuel left (written.drop (words.length - left.length)) i unknown
    | [.divider] => .error (.usage ⟨none⟩ (.missingWord "command"))
    | _ =>
      match written with
      | [] => .error (.usage ⟨none⟩ (.missingWord "command"))
      | first :: rest => do
        let (i, more) ← startCommand first rest i
        pure (i, unknown ++ more)

def parse (written : List String) : Except Stop Invocation := do
  let words ← (classify programRules written).mapError (.usage ⟨none⟩)
  let (i, unknown) ← readProgram (words.length + 1) words written .initial []
  if unknown.isEmpty then pure i else .error (.usage ⟨none⟩ (.unrecognized unknown))

/-- What a command line says over the configuration. -/
def Invocation.overrides (i : Invocation) : Config.Overrides where
  sourceMaps? := if i.sourceMaps then some true else none
  pureAnnotations? := if i.noAnnotations then some false else none
  debounceMs := .ofInt? i.debounceMs?
  eventLog? := i.eventLog?.map FilePath.ofString

end Packwright.CommandLine
