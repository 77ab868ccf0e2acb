import Packwright.Build
import Packwright.Watch.Coordinator

/-!
# Starting a watch

A watch keeps one compilation running and hands what it changes to a coordinator. Changes are
collected from the start: the coordinator is attached before the compiler has written anything.
-/

namespace Packwright.Watch

/-- A watch that has been started: what the compiler is asked, and who takes its changes. -/
structure Started where
  request : CompileRequest
  coordinator : Coordinator
  deriving Inhabited

/-- Attaches a coordinator: changes from now on are handed out in batches. What was written before
would go out at once. -/
def attach (s : Session) : Session × List Batch :=
  let (feed, deliveries) := (s.feed.watch ()).flush
  ({ s with feed := feed }, deliveries.map Prod.snd)

/-- Finds the units, and prepares the request to the compiler and the coordinator. -/
def start (config : Config) (plugins : Build.EnginePlugins) (entries extra : List FilePath) :
    Job Started := do
  let (registry, units) ← Build.findUnits entries
  Job.modify (Compile.openStore config)
  let s ← Job.session
  let request ← Job.lift (Compile.request s.disk config units extra)
  let extra ← Job.lift ((Compile.extraPaths s.disk extra).mapError .unresolved)
  let bundler : Bundler := ⟨registry, config.outputs, plugins.grammar?, plugins.declarations⟩
  pure ⟨request, ⟨units, bundler, extra⟩⟩

/-- Hands out the batch that is due. -/
def fire (s : Session) (now : Nat) : Session × List Batch :=
  let (feed, deliveries) := s.feed.fire now
  ({ s with feed := feed, clock? := some now }, deliveries.map Prod.snd)

end Packwright.Watch
