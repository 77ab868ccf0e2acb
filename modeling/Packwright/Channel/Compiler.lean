import Packwright.Channel.Basic
import Packwright.Compile.Request
import Packwright.Session

/-!
# The compiler at the other end of a channel

What the compiler is sent, what it may call while it compiles, and what its answer means.

* `CompilerHost` is what a compilation does to its surroundings: it reads sources, writes outputs
  and reports.
* `collecting` keeps the reports together, for a compilation whose reports are part of its result.
-/

namespace Packwright

/-- What a compilation does to its surroundings. -/
structure CompilerHost (σ : Type) where
  read : String → σ → Except Failure (Option String)
  write : (path content : String) → σ → σ
  report : Diagnostic → σ → σ

namespace CompilerHost

variable {σ : Type}

def readFile (h : CompilerHost σ) : Handler σ := fun params s =>
  ((h.read (Value.textAt params "path") s).map Value.ofText?, s)

def writeFile (h : CompilerHost σ) : Handler σ := fun params s =>
  (.ok .null, h.write (Value.textAt params "path") (Value.textAt params "text") s)

def diagnostic (h : CompilerHost σ) : Handler σ := fun params s =>
  (.ok .null, h.report (.ofFields params) s)

def handlers (h : CompilerHost σ) : Handlers σ :=
  [("read_file", h.readFile), ("write_file", h.writeFile), ("diagnostic", h.diagnostic)]

/-- Keeps the reports in a list. -/
def collecting (h : CompilerHost σ) : CompilerHost (σ × List Diagnostic) where
  read path s := h.read path s.1
  write path content s := (h.write path content s.1, s.2)
  report d s := (s.1, s.2 ++ [d])

/-- A compilation that reads from disk, writes to the store and reports on the console. -/
def ofRequest (r : CompileRequest) : CompilerHost Session where
  read path s := r.mangler.read s.disk path
  write path content s := s.write path content
  report d s := s.report d

end CompilerHost

def CompileRequest.params (r : CompileRequest) : Value.Fields :=
  [("root_names", .texts r.rootNames), ("tsconfig", r.toValue)]

/-- What the compiler is asked. -/
def CompilerHost.errand {σ : Type} (h : CompilerHost σ) (method : String) (r : CompileRequest) :
    Errand σ :=
  ⟨none, method, r.params, h.handlers⟩

namespace CompileResult

/-- Whether an answer says that output was skipped. -/
def skippedOf (fields : Value.Fields) : Bool :=
  match fields.get? "emit_skipped" with
  | some (.bool skipped) => skipped
  | _ => false

def diagnosticsOf (fields : Value.Fields) : Except Failure (List Diagnostic) :=
  let listed := (fields.get? "diagnostics").getD .null
  if listed.isEmpty then .ok []
  else (listed.tablesAmong.mapError .notAList).map fun tables => tables.map Diagnostic.ofFields

/-- The result that an answer describes, after some reports. -/
def ofAnswer (reported : List Diagnostic) : Value → Except Failure CompileResult
  | .table fields => do
    let more ← diagnosticsOf fields
    pure ⟨reported ++ more, skippedOf fields⟩
  | _ => .ok ⟨reported, false⟩

end CompileResult

end Packwright
