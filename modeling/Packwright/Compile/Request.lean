import Packwright.Diagnostic
import Packwright.Mangler

/-!
# What the compiler is asked and answers

* `CompileRequest` names the files of a program and the options; the sources are read through its
  mangler.
* `CompileResult` holds the reports of one compilation. A report that blocks, or output that was
  skipped, makes it a failure.
-/

namespace Packwright

/-- Everything that the compiler needs for a program. -/
structure CompileRequest where
  rootNames : List String
  patterns : List String
  options : Value.Fields
  mangler : Mangler
  deriving Inhabited

def CompileRequest.toValue (r : CompileRequest) : Value :=
  .table [("compilerOptions", .table r.options), ("include", .texts r.patterns)]

/-- What came of a compilation. -/
structure CompileResult where
  diagnostics : List Diagnostic
  emitSkipped : Bool
  deriving Repr, DecidableEq, Inhabited

namespace CompileResult

def hasBlocking (r : CompileResult) : Bool :=
  r.diagnostics.any Diagnostic.isBlocking

def failed (r : CompileResult) : Bool :=
  r.emitSkipped || r.hasBlocking

end CompileResult

end Packwright
