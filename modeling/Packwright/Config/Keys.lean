import Packwright.Config.Merge

/-!
# What a configuration may say

The keys of a configuration file with what each of them accepts, and where the same settings stand
in a configuration and on the command line.

* `settings` lists the keys whose values are kept as they are given. That of the event log is a
  path, which is made absolute first.
* `Valid` says when a file is accepted, `Resolvable` when its paths and those of the command line
  lead somewhere.
* `Layered` says what a merge makes of the three layers.
-/

namespace Packwright.Config

/-- What the value of a key has to be. -/
inductive Kind where
  | truth
  | text
  | texts
  | time
  deriving Repr, DecidableEq

/-- Which values are of a kind. A truth value is no time. -/
inductive Kind.Accepts : Kind → Value → Prop
  | truth (b : Bool) : Accepts truth (.bool b)
  | text {s : String} (h : s ≠ "") : Accepts text (.text s)
  | texts (items : List String) : Accepts texts (.texts items)
  | time {ms : Int} (hpos : 1 ≤ ms) (hle : ms ≤ maxDebounceMs) : Accepts time (.int ms)

/-- A key of a file: its section, its name there, and what it accepts. -/
structure Key where
  sectionName : String
  name : String
  kind : Kind

namespace Key

def path (k : Key) : String :=
  k.sectionName ++ "." ++ k.name

def at? (k : Key) (payload : Value.Fields) : Option Value :=
  (payload.get? k.sectionName).bind (·.field? k.name)

end Key

/-- A value, unless it is null. -/
def present? : Value → Option Value
  | .null => none
  | v => some v

def Overrides.time? (o : Overrides) : Option Value :=
  present? o.debounceMs

/-- A key, with its value in a configuration and what the command line says instead. -/
structure Setting extends Key where
  value : Config → Value
  given? : Overrides → Option Value := fun _ => none

/-- The keys whose values are kept as they are given. -/
def settings : List Setting := [
  { sectionName := "build", name := "source_map", kind := .truth
    value := fun c => .bool c.outputs.sourceMaps
    given? := fun o => o.sourceMaps?.map .bool },
  { sectionName := "build", name := "pure_annotations", kind := .truth
    value := fun c => .bool c.outputs.pureAnnotations
    given? := fun o => o.pureAnnotations?.map .bool },
  { sectionName := "compiler", name := "target", kind := .text
    value := fun c => .text c.language.target },
  { sectionName := "compiler", name := "module", kind := .text
    value := fun c => .text c.language.module },
  { sectionName := "compiler", name := "lib", kind := .texts
    value := fun c => .texts c.language.lib },
  { sectionName := "compiler", name := "types", kind := .texts
    value := fun c => .texts c.language.types },
  { sectionName := "compiler", name := "strict", kind := .truth
    value := fun c => .bool c.language.strict },
  { sectionName := "docs", name := "base_url", kind := .text
    value := fun c => .text c.docBaseUrl },
  { sectionName := "watch", name := "debounce_ms", kind := .time
    value := fun c => .int c.debounceMs
    given? := Overrides.time? },
  { sectionName := "engines", name := "compiler", kind := .texts
    value := fun c => .texts c.engines.compiler },
  { sectionName := "engines", name := "bundler", kind := .texts
    value := fun c => .texts c.engines.bundler }]

def eventLogKey : Key := ⟨"log", "event_log", .text⟩

def keys : List Key :=
  settings.map Setting.toKey ++ [eventLogKey]

def sections : List String :=
  ["build", "compiler", "docs", "watch", "engines", "log"]

def NoNull (payload : Value.Fields) : Prop :=
  ∀ k ∈ keys, k.at? payload ≠ some .null

/-- Whether a file is accepted. -/
structure Valid (payload : Value.Fields) : Prop where
  tables : ∀ s ∈ sections, ∀ v, payload.get? s = some v → v.isTable = true
  accepted : ∀ k ∈ keys, ∀ v, k.at? payload = some v → k.kind.Accepts v

/-- Whether the time on the command line is accepted. -/
def Overrides.Valid (o : Overrides) : Prop :=
  ∀ v, o.time? = some v → Kind.time.Accepts v

/-! ## Paths -/

/-- The event log that a file says, seen from the workspace. A null path is the workspace itself. -/
def fileLog? (workspace : FilePath) (payload : Value.Fields) : Option FilePath :=
  match eventLogKey.at? payload with
  | some .null => some (workspace.child "")
  | some (.text path) => if path.isEmpty then none else some (workspace.child path)
  | _ => none

/-- The paths that a file and the command line say. -/
def pathsGiven (workspace : FilePath) (payload : Value.Fields) (o : Overrides) : List FilePath :=
  (fileLog? workspace payload).toList ++ o.eventLog?.toList

/-- Whether these paths can be made absolute. -/
def Resolvable (disk : Disk) (workspace : FilePath) (payload : Value.Fields) (o : Overrides) : Prop :=
  ∀ p ∈ pathsGiven workspace payload o, ∃ q, disk.resolve p = .ok q

/-- A path that may be given, made absolute; without one the old one is kept. -/
def ResolvesTo (disk : Disk) (given? old? new? : Option FilePath) : Prop :=
  match given? with
  | none => new? = old?
  | some p => ∃ q, disk.resolve p = .ok q ∧ new? = some q

/-! ## Layers -/

/-- A configuration merged from three layers: what the command line says counts most, then what the
file says, then what was there before. -/
structure Layered (disk : Disk) (base : Config) (payload : Value.Fields) (o : Overrides)
    (c : Config) : Prop where
  settled : ∀ f ∈ settings, f.value c = ((f.given? o).or (f.at? payload)).getD (f.value base)
  eventLog : ResolvesTo disk (o.eventLog?.or (fileLog? base.workspace payload)) base.eventLog?
    c.eventLog?
  workspace : c.workspace = base.workspace

/-- The configurations that come from the initial one of a workspace by merging, as often as one
likes. -/
inductive ReachableFrom (workspace : FilePath) : Config → Prop
  | initial : ReachableFrom workspace (Config.initial workspace)
  | merged {base c : Config} (disk : Disk) (payload : Value.Fields) (o : Overrides) :
      ReachableFrom workspace base → merge disk base payload o = .ok c → ReachableFrom workspace c

end Packwright.Config
