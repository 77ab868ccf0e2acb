import Packwright.Build
import Packwright.Channel.Bundler
import Packwright.Channel.Compiler
import Packwright.Rehearsal.Scene

/-!
# Played engines

The compiler and the bundler as engines that are played at the other end of a channel.

* The compiler has an engine of its own for each run, which is closed at the end of it.
* The bundler has one engine for all.
-/

namespace Packwright.Rehearsal

variable {σ : Type}

/-- Asks an engine that is started for it and closed afterwards. -/
def askOnce (command : List String) (errand : Errand σ) (stage : Stage) (host : σ) :
    Except Failure Value × Stage × σ :=
  if command.isEmpty then (.error .noEngineCommand, stage, host)
  else
    let scene : Scene σ := ⟨.ofCommand command, stage, host⟩
    let (answer, scene) := scene.request errand
    let scene := scene.closed
    (answer, scene.stage, scene.host)

def compilePlayed (command : List String) (h : CompilerHost σ) (r : CompileRequest)
    (stage : Stage) (host : σ) : Except Failure CompileResult × Stage × σ :=
  let (answer, stage, (host, reported)) :=
    askOnce command (h.collecting.errand "compile" r) stage (host, [])
  (answer.bind (CompileResult.ofAnswer reported), stage, host)

def watchPlayed (command : List String) (h : CompilerHost σ) (r : CompileRequest)
    (stage : Stage) (host : σ) : Except Failure Unit × Stage × σ :=
  let (answer, stage, host) := askOnce command (h.errand "watch" r) stage host
  (answer.map fun _ => (), stage, host)

def Scene.bundle (s : Scene σ) (h : BundlerHost σ) (r : BundleRequest) :
    Except Failure String × Scene σ :=
  let (answer, s) := s.request (h.bundleErrand r)
  (answer.bind BundleRequest.buildOf, s)

def Scene.generate (s : Scene σ) (h : BundlerHost σ) (r : BundleRequest) (build : String)
    (format : ModuleFormat) (file : String) (sourceMaps liveBindings : Bool) :
    Except Failure (List Artifact) × Scene σ :=
  let (answer, s) := s.request (h.generateErrand r build format file sourceMaps liveBindings)
  (answer.bind Artifact.ofAnswer, s)

end Packwright.Rehearsal
