import Packwright.Dictionary
import Packwright.Path.File
import Packwright.Text.Lines
import Packwright.Text.Quoted
import Packwright.Text.Utf8

/-!
# Disk

The part of a file system that a build sees, as a value: files, directories and symbolic links by
their location below the root.

* `walk` follows a path component by component, through links. Going up from a directory that a
  link led to is going up from that directory.
* `resolve` makes a path absolute and free of links; what does not exist is taken as written.
* Reading and writing fail with a cause and the path as it was given.
* `readText` decodes and gives every line end as a newline; `writeText` writes what it is given.
-/

namespace Packwright

/-- Components below the root, each of them real. -/
abbrev Location := List String

/-- What is at a location. -/
inductive Entry where
  | file (bytes : List UInt8)
  | directory
  | link (target : String)
  deriving Repr, DecidableEq, Inhabited

/-- A file system: what is at each location, and the working directory. -/
structure Disk where
  entries : Dictionary Location Entry
  cwd : Location
  deriving Repr, DecidableEq, Inhabited

namespace Disk

-- sums start at the zero of the core library, whatever other instances are in scope
attribute [local instance (high)] Zero.ofOfNat0

/-- Why an operation on files fails. -/
inductive Cause where
  | notFound
  | alreadyExists
  | notADirectory
  | isADirectory
  | nameTooLong
  | tooManyLinks
  | nullCharacter
  deriving Repr, DecidableEq

/-- The number of a cause; a path that cannot be asked about has none. -/
def Cause.number? : Cause → Option Nat
  | notFound => some 2
  | alreadyExists => some 17
  | notADirectory => some 20
  | isADirectory => some 21
  | nameTooLong => some 36
  | tooManyLinks => some 40
  | nullCharacter => none

def Cause.text : Cause → String
  | notFound => "No such file or directory"
  | alreadyExists => "File exists"
  | notADirectory => "Not a directory"
  | isADirectory => "Is a directory"
  | nameTooLong => "File name too long"
  | tooManyLinks => "Too many levels of symbolic links"
  | nullCharacter => "embedded null byte"

/-- A cause with the path of the operation. -/
structure Error where
  cause : Cause
  path : String
  deriving Repr, DecidableEq

/-- The message of an error: the number, the words and the path; without a number only the
words. -/
def Error.message (e : Error) : String :=
  match e.cause.number? with
  | some n => s!"[Errno {n}] {e.cause.text}: " ++ Text.quoted e.path
  | none => e.cause.text

/-! ## Finding what is there -/

def entry? (d : Disk) (location : Location) : Option Entry :=
  if location.isEmpty then some .directory else d.entries.get? location

/-- Where a path led: to something, or to a free name in a directory. -/
inductive Found where
  | entry (location : Location) (e : Entry)
  | free (location : Location)
  deriving Repr, DecidableEq

/-- Where a link leads, seen from the directory it stands in. -/
def linkStart (here : Location) (target : FilePath) : Location :=
  if target.anchor = .relative then here else []

def maxNameSize : Nat := 255

/-- Follows components from a location, with explicit fuel. A link at the end is followed if
`follow` holds; at most `links` are. -/
def walkFrom (d : Disk) (follow : Bool) :
    (fuel : Nat) → (links : Nat) → Location → List String → Except Cause Found
  | 0, _, _, _ => .error .tooManyLinks
  | fuel + 1, links, here, parts =>
    match parts, d.entry? here with
    | _, none => .error .notFound
    | [], some e => .ok (.entry here e)
    | part :: rest, some .directory =>
      if part = ".." then walkFrom d follow fuel links here.dropLast rest
      else if maxNameSize < part.utf8ByteSize then .error .nameTooLong
      else
        let next := here ++ [part]
        match d.entry? next with
        | none => if rest.isEmpty then .ok (.free next) else .error .notFound
        | some (.link target) =>
          if rest.isEmpty && !follow then .ok (.entry next (.link target))
          else match links with
            | 0 => .error .tooManyLinks
            | links + 1 =>
              -- the components of the link are followed in front of those that are left
              let target := FilePath.ofString target
              walkFrom d follow fuel links (linkStart here target) (target.parts ++ rest)
        | some _ => walkFrom d follow fuel links next rest
    | _, some _ => .error .notADirectory

def maxLinks : Nat := 40

def startOf (d : Disk) (p : FilePath) : Location :=
  if p.anchor = .relative then d.cwd else []

def holdsNull (name : String) : Bool :=
  name.contains '\x00'

theorem holdsNull_eq (name : String) : holdsNull name = name.toList.contains '\x00' := by
  simp [holdsNull]

/-- Follows a path. -/
def walk (d : Disk) (follow : Bool) (p : FilePath) : Except Cause Found :=
  if p.parts.any holdsNull then .error .nullCharacter else
  let longest := (d.entries.map fun (_, e) =>
    match e with
    | .link target => target.length
    | _ => 0).foldl max 0
  let fuel := p.parts.length + 1 + (maxLinks + 1) * (longest + 1)
  walkFrom d follow fuel maxLinks (d.startOf p) p.parts

def isFile (d : Disk) (p : FilePath) : Bool :=
  match d.walk true p with
  | .ok (.entry _ (.file _)) => true
  | _ => false

def isDirectory (d : Disk) (p : FilePath) : Bool :=
  match d.walk true p with
  | .ok (.entry _ .directory) => true
  | _ => false

def pathExists (d : Disk) (p : FilePath) : Bool :=
  match d.walk true p with
  | .ok (.entry ..) => true
  | _ => false

/-! ## Resolving links -/

/-- How far the components of a path can be followed. -/
inductive Resolution where
  /-- To a location without links. -/
  | whole (location : Location)
  /-- To a link that leads back to itself, left as it stands together with all that follows. -/
  | loop (location : Location)
  /-- To a name that cannot be asked about. -/
  | nullCharacter

/-- Resolves components from a location, with explicit fuel. The locations of links that are being
resolved are open; a link that leads back to one of them is not followed. -/
def resolveFrom (d : Disk) :
    (fuel : Nat) → (opened : List Location) → Location → List String → Resolution
  | 0, _, here, parts => .loop (here ++ parts)
  | _ + 1, _, here, [] => .whole here
  | fuel + 1, opened, here, part :: rest =>
    if part = ".." then resolveFrom d fuel opened here.dropLast rest
    else if holdsNull part then .nullCharacter
    else
      let next := here ++ [part]
      match d.entry? next with
      | some (.link target) =>
        if opened.contains next then .loop (next ++ rest)
        else
          let target := FilePath.ofString target
          -- the link is open only while its own components are resolved
          match resolveFrom d fuel (next :: opened) (linkStart here target) target.parts with
          | .whole reached => resolveFrom d fuel opened reached rest
          | .loop reached => .loop (reached ++ rest)
          | .nullCharacter => .nullCharacter
      | _ => resolveFrom d fuel opened next rest

/-- Why a path cannot be made absolute. -/
inductive ResolveError where
  /-- A chain of links without an end. -/
  | linkLoop (path : String)
  | nullCharacter
  deriving Repr, DecidableEq

/-- The message of an error; that of a loop names the path. -/
def ResolveError.message : ResolveError → String
  | linkLoop path => "Symlink loop from " ++ Text.quoted path
  | nullCharacter => Cause.nullCharacter.text

def resolve (d : Disk) (p : FilePath) : Except ResolveError FilePath :=
  let depth := p.parts.length + (d.entries.map fun (_, e) =>
    match e with
    | .link target => target.length + 1
    | _ => 0).sum
  match resolveFrom d (depth + 1) [] (d.startOf p) p.parts with
  | .whole location => .ok (.ofLocation location)
  | .nullCharacter => .error .nullCharacter
  | .loop location =>
    let cleaned := (Path.reduce true (location.map String.toList)).map String.ofList
    if cleaned.any holdsNull then .error .nullCharacter
    else .error (.linkLoop (FilePath.ofLocation cleaned).toString)

/-! ## Reading and writing -/

def fail {α : Type} (cause : Cause) (p : FilePath) : Except Error α :=
  .error ⟨cause, p.toString⟩

def read (d : Disk) (p : FilePath) : Except Error (List UInt8) :=
  match d.walk true p with
  | .ok (.entry _ (.file bytes)) => .ok bytes
  | .ok (.entry ..) => fail .isADirectory p
  | .ok (.free _) => fail .notFound p
  | .error cause => fail cause p

def list (d : Disk) (p : FilePath) : Except Error (List String) :=
  match d.walk true p with
  | .ok (.entry location .directory) =>
    .ok (d.entries.filterMap fun (l, _) =>
      if l.dropLast = location && !l.isEmpty then l.getLast? else none)
  | .ok (.entry ..) => fail .notADirectory p
  | .ok (.free _) => fail .notFound p
  | .error cause => fail cause p

def put (d : Disk) (location : Location) (e : Entry) : Disk :=
  { d with entries := d.entries.put location e }

/-- Writes a file; `change` is given its old bytes. -/
def writeWith (d : Disk) (p : FilePath) (change : List UInt8 → List UInt8) :
    Except Error Disk :=
  match d.walk true p with
  | .ok (.entry location (.file bytes)) => .ok (d.put location (.file (change bytes)))
  | .ok (.entry ..) => fail .isADirectory p
  | .ok (.free location) => .ok (d.put location (.file (change [])))
  | .error cause => fail cause p

def write (d : Disk) (p : FilePath) (bytes : List UInt8) : Except Error Disk :=
  d.writeWith p fun _ => bytes

def append (d : Disk) (p : FilePath) (bytes : List UInt8) : Except Error Disk :=
  d.writeWith p fun old => old ++ bytes

def makeDirectory (d : Disk) (p : FilePath) : Except Error Disk :=
  match d.walk false p with
  | .ok (.entry ..) => fail .alreadyExists p
  | .ok (.free location) => .ok (d.put location .directory)
  | .error cause => fail cause p

/-- Makes a directory unless it is there. -/
def ensureDirectory (d : Disk) (p : FilePath) : Except Error Disk :=
  match d.makeDirectory p with
  | .ok d => .ok d
  | .error e => if d.isDirectory p then .ok d else .error e

/-- Makes a directory and those above it, given its components backwards. -/
def ensureAll (d : Disk) (anchor : Path.Anchor) : List String → Except Error Disk
  | [] => .ok d
  | last :: above =>
    let p : FilePath := ⟨anchor, (last :: above).reverse⟩
    match d.makeDirectory p with
    | .ok d => .ok d
    | .error e =>
      if e.cause = .notFound then do
        let d ← ensureAll d anchor above
        d.ensureDirectory p
      else if d.isDirectory p then .ok d
      else .error e

def makeDirectories (d : Disk) (p : FilePath) : Except Error Disk :=
  d.ensureAll p.anchor p.parts.reverse

/-- Removes what is at a path with all that is in it, if it is there. A link is removed itself. -/
def remove (d : Disk) (p : FilePath) : Disk :=
  match d.walk false p with
  | .ok (.entry location _) =>
    { d with entries := d.entries.filter fun (l, _) => !location.isPrefixOf l }
  | _ => d

/-! ## Texts -/

/-- Why a text cannot be read. -/
inductive TextError where
  | disk (cause : Error)
  | undecodable (cause : Text.Utf8.DecodeError)
  deriving Repr, DecidableEq

def TextError.message : TextError → String
  | disk cause => cause.message
  | undecodable cause => cause.message

/-- The text of a file; every line end is given as a newline. -/
def readText (d : Disk) (p : FilePath) : Except TextError String :=
  match d.read p with
  | .error cause => .error (.disk cause)
  | .ok bytes =>
    match Text.Utf8.decodeChars bytes with
    | .error cause => .error (.undecodable cause)
    | .ok s => .ok (String.ofList (Text.unifyNewlines s))

/-- The text of a file, or nothing when there is no file of that path. -/
def readText? (d : Disk) (path : String) : Except TextError (Option String) :=
  match d.readText (.ofString path) with
  | .ok s => .ok (some s)
  | .error (.disk cause) =>
    match cause.cause with
    | .notFound | .isADirectory | .notADirectory => .ok none
    | _ => .error (.disk cause)
  | .error e => .error e

end Disk

end Packwright
