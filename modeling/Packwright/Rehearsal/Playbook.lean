import Packwright.Rehearsal.Program

/-!
# Playbooks

A document that says what a rehearsal starts from: the files of a workspace, and the scripts of the
engines that are played.

* `diskOf` makes a disk of files and links; a name that ends in a slash is that of a directory.
* `Playbook.run` runs the program; `changes` tells what has become of the files.
-/

namespace Packwright.Rehearsal

/-! ## Files -/

/-- Bytes from pairs of hexadecimal digits. -/
def bytesOfHex : List Char → List UInt8
  | high :: low :: rest =>
    let digit c := (Text.hexDigit? c).getD 0
    UInt8.ofNat (digit high * 16 + digit low) :: bytesOfHex rest
  | _ => []

/-- What is in a file: a text, or a table that gives the bytes under `hex`. -/
def contentOf : Value → List UInt8
  | .text s => Text.Utf8.encode s
  | v => bytesOfHex (((v.field? "hex").bind Value.text?).getD "").toList

/-- Makes a change to a disk if it can be made. -/
def tryOn (d : Disk) (change : Disk → Except Disk.Error Disk) : Disk :=
  (change d).toOption.getD d

/-- Puts a file, or a directory, below another directory. -/
def place (root : FilePath) (d : Disk) (name : String) (content : Value) : Disk :=
  let p := root.child name
  if name.toList.getLast? == some '/' then tryOn d fun d => d.makeDirectories p
  else
    let d := tryOn d fun d => d.makeDirectories p.parent
    tryOn d fun d => d.write p (contentOf content)

/-- Puts a link below a directory. -/
def placeLink (root : FilePath) (d : Disk) (name target : String) : Disk :=
  let d := tryOn d fun d => d.makeDirectories (root.child name).parent
  d.put (root.child name).parts (.link target)

/-- The disk on which a directory, where the program is started, holds some files and links. -/
def diskOf (root : FilePath) (files links : Value.Fields) : Disk :=
  let d := tryOn ⟨[], root.parts⟩ fun d => d.makeDirectories root
  let d := files.foldl (fun d (name, content) => place root d name content) d
  links.foldl (fun d (name, target) => placeLink root d name (target.text?.getD "")) d

/-- The files below a directory. -/
def filesBelow (root : FilePath) (d : Disk) : Dictionary String (List UInt8) :=
  d.entries.filterMap fun (location, entry) =>
    match entry with
    | .file bytes =>
      if root.parts.isPrefixOf location then some ((FilePath.ofLocation location).toString, bytes)
      else none
    | _ => none

/-- The files that are new or not as they were, and the names of those that are gone. -/
def changes (root : FilePath) (old new : Disk) : Value :=
  let old := filesBelow root old
  let new := filesBelow root new
  let changed := new.filter fun (name, bytes) => old.get? name ≠ some bytes
  let gone := old.filter fun (name, _) => !new.has name
  .table (changed.map (fun (name, bytes) =>
      (name, .text (String.ofList (Text.Utf8.decodeLenient bytes)))) ++
    gone.map fun (name, _) => (name, .null))

/-! ## Scripts -/

def Cue.ofValue : Value → Cue
  | .table [("msg", document)] => .print (Json.write document ++ "\n")
  | .table [("line", text)] => .print (text.display ++ "\n")
  | .table [("raw", text)] => .print text.display
  | .table [("eof", _)] => .endOutput
  | .table [("break", _)] => .breakInput
  | .table [("hang", _)] => .hang
  | _ => .interrupt

def elementsOf : Value → List Value
  | .list items => items
  | _ => []

/-- The scripts of the engines that are started by one command. -/
def scriptsOf (v : Value) : List Script :=
  (elementsOf v).map fun script =>
    (elementsOf script).map fun cues => (elementsOf cues).map Cue.ofValue

/-- The stage of some scripts, by the first word of a command. -/
def stageOf (scripts : Value.Fields) : Stage :=
  ⟨scripts.map fun (program, v) => (program, scriptsOf v), [], false⟩

/-! ## Playbooks -/

/-- What a rehearsal starts from. -/
structure Playbook where
  root : FilePath
  disk : Disk
  stage : Stage
  timestamp : String
  deriving Inhabited

namespace Playbook

def fieldsAt (v : Value) (name : String) : Value.Fields :=
  ((v.field? name).bind Value.fields?).getD []

/-- The playbook of a document. -/
def ofValue (v : Value) : Playbook :=
  let textAt (name fallback : String) : String := ((v.field? name).bind Value.text?).getD fallback
  let root := FilePath.ofString (textAt "workspace" "/workspace")
  { root := root
    disk := diskOf root (fieldsAt v "disk") (fieldsAt v "links")
    stage := stageOf (fieldsAt v "engines")
    timestamp := textAt "timestamp" "1970-01-01T00:00:00.000Z" }

def run (b : Playbook) (args : List String) : CommandLine.Ending × Session × Stage :=
  runProgram args (.ofDisk b.disk b.timestamp) b.stage

end Playbook

end Packwright.Rehearsal
