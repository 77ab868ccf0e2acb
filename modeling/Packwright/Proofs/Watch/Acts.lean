import Packwright.Proofs.FirstOccurrence
import Packwright.Proofs.Job
import Packwright.Proofs.Traversal
import Packwright.Watch.Run

/-!
# The acts of a batch

Doing a batch is doing its acts in turn, and no act touches the store, its watchers or the timer:
what an act does is on disk, on the console and in the event log.

* `process_eq` is the first fact, `calm_perform` the second.
* `perform_rebuild`: the act that rebuilds a unit is an attempt of the bundler, and an account of it.
* `dirtyUnits_eq`: the dirty units are the first occurrences among the owners.
* `rebuild_mem_acts`: a batch asks to bundle every unit that owns one of its paths.
-/

namespace Packwright.Watch

/-- The unit that an owner makes dirty. -/
def Owner.unit? : Owner → Option BuildUnit
  | passThrough => none
  | unit u => some u

namespace Coordinator

variable (c : Coordinator)

/-! ## A batch is the acts that it asks for -/

/-- Acts are carried out in their order. -/
theorem performAll_append (first second : List Act) :
    c.performAll (first ++ second) = (do
      let units ← c.performAll first
      let others ← c.performAll second
      pure (units ++ others)) := by
  induction first with
  | nil => simp [performAll]
  | cons act rest ih =>
    rw [List.cons_append, performAll, performAll, ih]
    simp only [bind_assoc, pure_bind, List.append_assoc]

/-- Carrying out the writes is writing the direct paths, as the cycle does. -/
theorem performAll_writeThrough (direct : List String) :
    c.performAll (direct.map .writeThrough) = (do
      writeAllThrough direct
      pure []) := by
  induction direct with
  | nil => simp [performAll, writeAllThrough]
  | cons path rest ih =>
    rw [List.map_cons, performAll, ih]
    simp [perform, writeAllThrough]

/-- Carrying out the rebuilds is rebuilding the dirty units, as the cycle does. -/
theorem performAll_rebuild (dirty : List BuildUnit) :
    c.performAll (dirty.map .rebuild) = c.rebuildAll dirty := by
  induction dirty with
  | nil => rfl
  | cons u rest ih =>
    rw [List.map_cons, performAll, ih, rebuildAll]
    simp only [perform, bind_assoc, pure_bind]
    refine congrArg (c.rebuild u >>= ·) (funext fun ok => ?_)
    cases ok <;> rfl

/-- **A batch is the acts that it asks for**, in that order, once its paths are known to belong to
something. -/
theorem process_eq (batch : Batch) :
    c.process batch = (do
      enter .flushing
      let (direct, dirty) ← Job.lift (c.classify batch)
      c.performAll (acts batch direct dirty)) := by
  unfold process acts
  refine congrArg (enter .flushing >>= ·) (funext fun _ => ?_)
  refine congrArg (Job.lift (c.classify batch) >>= ·) (funext fun sorted => ?_)
  obtain ⟨direct, dirty⟩ := sorted
  dsimp only
  rw [List.append_assoc, performAll_append, performAll_writeThrough, List.cons_append, performAll,
    performAll_append, performAll_rebuild]
  simp [perform, performAll]

/-! ## What an attempt is -/

/-- What comes after an attempt to bundle a unit. It is told to the event log either way, a failure
to the console as well, and only a success counts the unit among those that were bundled. -/
def account (u : BuildUnit) : Except Failure (List FilePath) → Job (List BuildUnit)
  | .ok _ => do
    Job.record "bundle" (some u.label) true none []
    pure [u]
  | .error e => do
    Job.modify fun s => s.error s!"Failed to bundle {u.label}:\n{e.message}"
    Job.record "bundle" (some u.label) false (some e.message) []
    pure []

/-- **To rebuild a unit is to ask the bundler for it** and to give account of what has come of
that, whatever it is: no failure of the bundler is a failure of the act. -/
theorem perform_rebuild (u : BuildUnit) :
    c.perform (.rebuild u) = (c.bundler.bundle u).attempt >>= account u := by
  rw [perform, rebuild, bind_assoc]
  refine congrArg ((c.bundler.bundle u).attempt >>= ·) (funext fun result => ?_)
  cases result <;> simp only [account, bind_assoc, pure_bind] <;> rfl

/-! ## No act touches the store -/

/-- Entering a phase neither writes to the store nor touches the clock. -/
theorem calm_enter (phase : Phase) : (enter phase).Calm none :=
  Job.calm_modify fun _ => rfl

/-- Nor does writing a file to the disk. -/
theorem calm_writeThrough (path : String) : (writeThrough path).Calm none := by
  unfold writeThrough
  split
  · refine Job.calm_session.bind fun s => ?_
    cases s.store.read path with
    | none => exact Job.calm_pure ()
    | some content => exact Job.calm_writeText _ content
  · exact Job.calm_pure ()

/-- Nor does writing an artifact. -/
theorem calm_writeArtifact (options : OutputOptions) (transform : Bundle.Transform) (a : Artifact) :
    (Bundle.writeArtifact options transform a).Calm none := by
  refine (Job.calm_lift _).bind fun map? => (Job.calm_lift _).bind fun written => ?_
  obtain ⟨code, map?⟩ := written
  cases map? with
  | none => exact (Job.calm_writeText _ _).bind fun _ => Job.calm_pure _
  | some map =>
    exact (Job.calm_writeText _ _).bind fun _ => (Job.calm_writeText _ _).bind fun _ =>
      Job.calm_pure _

theorem calm_writeAll (options : OutputOptions) (transform : Bundle.Transform)
    (artifacts : List Artifact) : (Bundle.writeAll options transform artifacts).Calm none := by
  induction artifacts with
  | nil => exact Job.calm_pure _
  | cons a rest ih =>
    exact (calm_writeArtifact options transform a).bind fun _ => ih.bind fun _ => Job.calm_pure _

theorem calm_emit (build : String) (request : BundleRequest) (options : OutputOptions)
    (transform : Bundle.Transform) : (Bundle.emit build request options transform).Calm none :=
  (Job.calm_request _).bind fun artifacts => calm_writeAll options transform artifacts

/-- Bundling reads the store and leaves it as it is. -/
theorem calm_bundle (b : Bundler) (u : BuildUnit) : (b.bundle u).Calm none := by
  refine Job.calm_session.bind fun s => (Job.calm_lift _).bind fun modules => ?_
  refine (Job.calm_request _).bind fun build => ?_
  refine (calm_emit _ _ _ _).bind fun esm => (calm_emit _ _ _ _).bind fun cjs => ?_
  refine (Job.calm_request _).bind fun build => ?_
  exact (calm_emit _ _ _ _).bind fun types => Job.calm_pure _

/-- Nor does a rebuild, whether its attempt fails or not. -/
theorem calm_rebuild (u : BuildUnit) : (c.rebuild u).Calm none := by
  refine (calm_bundle c.bundler u).attempt.bind fun result => ?_
  cases result with
  | ok files => exact (Job.calm_record _ _ _ _ _).bind fun _ => Job.calm_pure _
  | error e =>
    refine Job.Calm.bind (Job.calm_modify fun _ => rfl) fun _ => ?_
    exact (Job.calm_record _ _ _ _ _).bind fun _ => Job.calm_pure _

/-- **No act touches the store**, its watchers, the timer or the clock. -/
theorem calm_perform (act : Act) : (c.perform act).Calm none := by
  cases act with
  | writeThrough path => exact (calm_writeThrough path).bind fun _ => Job.calm_pure _
  | announce =>
    refine (calm_enter _).bind fun _ => ?_
    exact Job.Calm.bind (Job.calm_modify fun _ => rfl) fun _ => Job.calm_pure _
  | rebuild u => exact (c.calm_rebuild u).bind fun _ => Job.calm_pure _
  | conclude batch direct dirty =>
    refine Job.Calm.bind (Job.calm_modify fun _ => rfl) fun _ => ?_
    refine (Job.calm_record _ _ _ _ _).bind fun _ => ?_
    exact (calm_enter _).bind fun _ => Job.calm_pure _

/-! ## Which units a batch makes dirty -/

/-- The dirty units are the owners that are units, each once, in the order in which they first
appear. -/
theorem dirtyUnits_eq (owners : List Owner) :
    dirtyUnits owners = (owners.filterMap Owner.unit?).eraseDups := by
  rw [← FirstOccurrence.foldl_eq_eraseDups, List.foldl_filterMap]
  unfold dirtyUnits
  congr 1
  funext dirty o
  cases o <;> rfl

theorem mem_dirtyUnits {u : BuildUnit} {owners : List Owner} (h : .unit u ∈ owners) :
    u ∈ dirtyUnits owners := by
  rw [dirtyUnits_eq, List.mem_eraseDups]
  exact List.mem_filterMap.mpr ⟨.unit u, h, rfl⟩

/-- **A unit that owns a path of a batch is dirty**, and the batch asks to bundle it. -/
theorem rebuild_mem_acts {batch : Batch} {direct : List String} {dirty : List BuildUnit}
    (h : c.classify batch = .ok (direct, dirty)) {path : String} (hp : path ∈ batch)
    {u : BuildUnit} (hu : c.owner path = .ok (.unit u)) :
    .rebuild u ∈ acts batch direct dirty := by
  unfold classify at h
  cases howners : batch.mapM c.owner with
  | error e => rw [howners] at h; exact absurd h (by simp [Bind.bind, Except.bind])
  | ok owners =>
    rw [howners] at h
    have hpair : (directPaths batch owners, dirtyUnits owners) = (direct, dirty) := Except.ok.inj h
    -- the owner of a path in the batch is among the owners, hence dirty
    have hdirty : u ∈ dirty := by
      rw [show dirty = dirtyUnits owners from (congrArg Prod.snd hpair).symm]
      exact mem_dirtyUnits (Traversal.mem_of_mem_mapM howners hp hu)
    unfold acts
    simp [hdirty]

end Coordinator

end Packwright.Watch
