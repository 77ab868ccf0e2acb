import Packwright.Proofs.Bundle.Siblings
import Packwright.Proofs.Watch.Acts

/-!
# One cycle of a rebuild

A batch is done deed by deed: files are written through, every dirty unit is attempted, and each
attempt is reported. Bundling a unit may fail and may do to the session what it likes; the cycle goes
on. Only a write of the coordinator's own, of a file or to the event log, can end it.

* `Deed` is what the coordinator does in a cycle, `Does` is what a deed does, and `Carries` carries
  out a list of deeds, up to the first own write that fails.
* `cycle` lists the deeds of a batch, given the results of the attempts.
* `rebuildAll_carries` is the loop over the dirty units, `process_carries` the whole cycle.
-/

namespace Packwright.Watch

-- the paths written, or why the unit could not be bundled
abbrev Attempted : Type := Except Failure (List FilePath)

/-- What the coordinator does in a cycle. -/
inductive Deed where
  | phase (phase : Phase)
  | write (path content : String)
  | say (line : String)
  | complain (line : String)
  | attempt (u : BuildUnit) (result : Attempted)
  | event (kind : String) (unit? : Option String) (ok : Bool) (error? : Option String)
      (metadata : Value.Fields)

namespace Deed

def file? : Deed → Option (String × String)
  | write path content => some (path, content)
  | _ => none

def attempted? : Deed → Option BuildUnit
  | attempt u _ => some u
  | _ => none

def complaint? : Deed → Option String
  | complain line => some line
  | _ => none

-- its kind, its unit, whether it tells of a success, and the error
def event? : Deed → Option (String × Option String × Bool × Option String)
  | event kind unit? ok error? _ => some (kind, unit?, ok, error?)
  | _ => none

/-- A write of the coordinator's own, which may fail. -/
def own? : Deed → Option (Job Unit)
  | write path content => some (Job.writeText (.ofString path) content)
  | event kind unit? ok error? metadata => some (Job.record kind unit? ok error? metadata)
  | _ => none

end Deed

variable {σ : Type}

/-- What a deed does when it is done. -/
def Does (engines : Job.Engines σ) (b : Bundler) : Deed → Session × σ → Session × σ → Prop
  | .phase phase, s, s' => s' = ({ s.1 with phase := phase }, s.2)
  | .say line, s, s' => s' = (s.1.info line, s.2)
  | .complain line, s, s' => s' = (s.1.error line, s.2)
  | .attempt u result, s, s' => Job.run engines (b.bundle u) s = (result, s')
  | deed, s, s' => ∃ job ∈ deed.own?, Job.run engines job s = (.ok (), s')

/-- Carrying out a list of deeds: they are done one after the other, but an own write that fails
ends them. -/
inductive Carries (engines : Job.Engines σ) (b : Bundler) :
    List Deed → Session × σ → Except Failure Unit → Session × σ → Prop
  | done (s) : Carries engines b [] s (.ok ()) s
  | next {deed deeds s m ended s'} (first : Does engines b deed s m)
      (others : Carries engines b deeds m ended s') : Carries engines b (deed :: deeds) s ended s'
  | hindered {deed deeds s job e s'} (own : deed.own? = some job)
      (fails : Job.run engines job s = (.error e, s')) :
      Carries engines b (deed :: deeds) s (.error e) s'

namespace Coordinator

/-- The file that an output is written to, if it is a module and in the store. -/
def fileThrough? (store : Store) (path : String) : Option (String × String) :=
  if Path.moduleExtension.isSuffixOf path.toList then (store.read path).map fun text => (path, text)
  else none

/-- An attempt and its report: one event, and before it a line if the attempt has failed. -/
def attempting (u : BuildUnit) (result : Attempted) : List Deed :=
  .attempt u result :: match result with
    | .ok _ => [.event "bundle" (some u.label) true none []]
    | .error e => [.complain s!"Failed to bundle {u.label}:\n{e.message}",
        .event "bundle" (some u.label) false (some e.message) []]

/-- The deeds of a batch, given the results of the attempts. -/
def cycle (c : Coordinator) (store : Store) (batch : Batch) (direct : List String)
    (attempts : List (BuildUnit × Attempted)) : List Deed :=
  .phase .flushing :: (direct.filterMap (fileThrough? store)).map (fun f => .write f.1 f.2) ++
    [.phase .rebuilding, .say ("Bundling " ++ ", ".intercalate (c.units.map BuildUnit.label))] ++
    attempts.flatMap (fun a => attempting a.1 a.2) ++
    [.say "Bundling done.",
      .event "watch_batch" none true none (outcome batch direct (attempts.map Prod.fst)),
      .phase .idle]

/-- The units whose attempt has succeeded. -/
def succeeded (attempts : List (BuildUnit × Attempted)) : List BuildUnit :=
  attempts.filterMap fun a =>
    match a.2 with
    | .ok _ => some a.1
    | .error _ => none

/-- The units whose attempt has failed, with the failures. -/
def failed (attempts : List (BuildUnit × Attempted)) : List (BuildUnit × Failure) :=
  attempts.filterMap fun a =>
    match a.2 with
    | .ok _ => none
    | .error e => some (a.1, e)

/-- What the event of an attempt says of a failure. -/
def errorText? : Attempted → Option String
  | .ok _ => none
  | .error e => some e.message

end Coordinator

/-! ## Carrying out deeds -/

section Carrying

variable {engines : Job.Engines σ} {b : Bundler} {s m s' : Session × σ} {ended : Except Failure Unit}
  {first others : List Deed}

/-- Deeds that all succeed, with others behind them. -/
theorem Carries.append (hfirst : Carries engines b first s (.ok ()) m)
    (hothers : Carries engines b others m ended s') :
    Carries engines b (first ++ others) s ended s' := by
  -- the induction is on the first list, which ends well
  generalize hok : (Except.ok () : Except Failure Unit) = done at hfirst
  induction hfirst with
  | done s => exact hothers
  | next hdoes _ ih => exact .next hdoes (ih hothers hok)
  | hindered => exact absurd hok (by simp)

/-- Where one deed has failed, none of the later ones is done. -/
theorem Carries.append_of_error {e : Failure} (hfirst : Carries engines b first s (.error e) s')
    (others : List Deed) : Carries engines b (first ++ others) s (.error e) s' := by
  generalize herror : (Except.error e : Except Failure Unit) = done at hfirst
  induction hfirst with
  | done s => exact absurd herror (by simp)
  | next hdoes _ ih => exact .next hdoes (ih herror)
  | hindered hown hfails => exact .hindered hown hfails

/-- One own write is carried out, whether it succeeds or not. -/
theorem carries_own {deed : Deed} {job : Job Unit} (hown : deed.own? = some job)
    (s : Session × σ) : Carries engines b [deed] s (Job.run engines job s).1 (Job.run engines job s).2 := by
  cases h : Job.run engines job s with
  | mk r m =>
    cases r with
    | error e => exact .hindered hown h
    | ok _ =>
      refine .next ?_ (.done m)
      cases deed with
      | write => exact ⟨job, hown, h⟩
      | event => exact ⟨job, hown, h⟩
      | _ => exact absurd hown (by simp [Deed.own?])

/-- A list of deeds is done to its end, or one of the coordinator's own writes has failed. -/
theorem Carries.ended_cases {deeds : List Deed} (h : Carries engines b deeds s ended s') :
    ended = .ok () ∨ ∃ deed ∈ deeds, ∃ job ∈ deed.own?, ∃ m e,
      Job.run engines job m = (.error e, s') ∧ ended = .error e := by
  induction h with
  | done s => exact Or.inl rfl
  | next _ _ ih =>
    refine ih.imp_right ?_
    rintro ⟨deed, hdeed, hfails⟩
    exact ⟨deed, List.mem_cons_of_mem _ hdeed, hfails⟩
  | hindered hown hfails => exact Or.inr ⟨_, List.mem_cons_self, _, hown, _, _, hfails, rfl⟩

end Carrying

namespace Coordinator

variable (c : Coordinator) (engines : Job.Engines σ)

/-! ## Files -/

/-- A path is written through if it names a stored module, and left alone otherwise. -/
theorem run_writeThrough (path : String) (s : Session × σ) :
    Job.run engines (writeThrough path) s =
      (fileThrough? s.1.store path).elim (.ok (), s)
        fun f => Job.run engines (Job.writeText (.ofString f.1) f.2) s := by
  have hsession : Job.run engines Job.session s = (.ok s.1, s) := rfl
  unfold writeThrough fileThrough?
  split
  · rw [Job.run_bind_of_ok hsession]
    cases s.1.store.read path <;> rfl
  · rfl

/-- One output: it is written if it is a module and in the store, which stays as it is. -/
theorem writeThrough_carries (b : Bundler) (path : String) (s : Session × σ) :
    ∃ ended s', Carries engines b
        ([path].filterMap (fileThrough? s.1.store) |>.map fun f => .write f.1 f.2) s ended s' ∧
      s'.1.store = s.1.store ∧ Job.run engines (writeThrough path) s = (ended, s') := by
  rw [run_writeThrough]
  cases hfile : fileThrough? s.1.store path with
  | none => exact ⟨.ok (), s, by simpa [hfile] using Carries.done s, rfl, rfl⟩
  | some f =>
    have hown : Deed.own? (.write f.1 f.2) = some (Job.writeText (.ofString f.1) f.2) := rfl
    have hfiles : [path].filterMap (fileThrough? s.1.store) = [f] := by simp [hfile]
    rw [hfiles]
    exact ⟨_, _, carries_own hown s,
      congrArg Feed.store (Job.feed_run_writeText engines (.ofString f.1) f.2 s), rfl⟩

/-- **The direct outputs are written through** in turn. -/
theorem writeAllThrough_carries (b : Bundler) (direct : List String) (s : Session × σ) :
    ∃ ended s', Carries engines b
        (direct.filterMap (fileThrough? s.1.store) |>.map fun f => .write f.1 f.2) s ended s' ∧
      Job.run engines (writeAllThrough direct) s = (ended, s') := by
  induction direct generalizing s with
  | nil => exact ⟨.ok (), s, .done s, rfl⟩
  | cons path rest ih =>
    obtain ⟨ended, m, hfirst, hstore, hrun⟩ := writeThrough_carries engines b path s
    rw [show path :: rest = [path] ++ rest from rfl, List.filterMap_append, List.map_append]
    rw [List.singleton_append, writeAllThrough]
    cases ended with
    | error e => exact ⟨.error e, m, hfirst.append_of_error _, Job.run_bind_of_error hrun _⟩
    | ok _ =>
      obtain ⟨ended, s', hothers, hrunOthers⟩ := ih m
      -- a write to the disk leaves the store, so the later paths are looked up in the same one
      rw [hstore] at hothers
      exact ⟨ended, s', hfirst.append hothers, (Job.run_bind_of_ok hrun _).trans hrunOthers⟩

/-! ## Attempts -/

/-- **One unit**: it is attempted, and the attempt is reported. -/
theorem rebuild_carries (u : BuildUnit) (s : Session × σ) :
    ∃ result ended s', Carries engines c.bundler (attempting u result) s ended s' ∧
      Job.run engines (c.rebuild u) s = (ended.map fun _ => result.isOk, s') := by
  cases hbundle : Job.run engines (c.bundler.bundle u) s with
  | mk result m =>
    have hattempt := Job.run_attempt hbundle
    have hdoes : Does engines c.bundler (.attempt u result) s m := hbundle
    unfold rebuild
    rw [Job.run_bind_of_ok hattempt]
    -- a failed attempt is told twice, as a complaint and as an event, and not passed on
    cases result with
    | ok files =>
      have hown : Deed.own? (.event "bundle" (some u.label) true none []) = some _ := rfl
      refine ⟨.ok files, _, _, .next hdoes (carries_own hown m), ?_⟩
      rw [Job.run_bind_pure]
      rfl
    | error e =>
      have hown : Deed.own? (.event "bundle" (some u.label) false (some e.message) []) = some _ := rfl
      refine ⟨.error e, _, _, .next hdoes (.next rfl (carries_own hown _)), ?_⟩
      show Job.run engines (Job.record "bundle" (some u.label) false (some e.message) [] >>=
        fun _ => pure false) _ = _
      rw [Job.run_bind_pure]
      rfl

/-- **Every dirty unit is attempted**, whatever becomes of the others. -/
theorem rebuildAll_carries (dirty : List BuildUnit) (s : Session × σ) :
    ∃ attempts ended s', attempts.map Prod.fst = dirty ∧
      Carries engines c.bundler (attempts.flatMap fun a => attempting a.1 a.2) s ended s' ∧
      Job.run engines (c.rebuildAll dirty) s = (ended.map fun _ => succeeded attempts, s') := by
  induction dirty generalizing s with
  | nil => exact ⟨[], .ok (), s, rfl, .done s, rfl⟩
  | cons u rest ih =>
    obtain ⟨result, ended, m, hfirst, hrun⟩ := c.rebuild_carries engines u s
    rw [rebuildAll]
    cases ended with
    | error e =>
      -- what the others would come to does not matter any more
      exact ⟨(u, result) :: rest.map fun v => (v, .ok []), .error e, m, by simp [Function.comp_def],
        hfirst.append_of_error _, Job.run_bind_of_error hrun _⟩
    | ok _ =>
      obtain ⟨attempts, ended, s', hunits, hothers, hrunOthers⟩ := ih m
      refine ⟨(u, result) :: attempts, ended, s', by rw [List.map_cons, hunits],
        hfirst.append hothers, ?_⟩
      rw [Job.run_bind_of_ok hrun, Job.run_bind_pure, hrunOthers]
      cases ended <;> cases result <;> rfl

/-! ## The whole cycle -/

/-- A batch whose paths all have owners is classified. -/
theorem exists_classify {batch : Batch} (h : ∀ path ∈ batch, ∃ o, c.owner path = .ok o) :
    ∃ direct dirty, c.classify batch = .ok (direct, dirty) := by
  obtain ⟨owners, howners⟩ := Traversal.exists_forall₂ h
  refine ⟨directPaths batch owners, dirtyUnits owners, ?_⟩
  unfold classify
  rw [Traversal.mapM_eq_ok_iff.mpr howners]
  rfl

/-- What a batch comes to behind its last attempt. -/
theorem conclude_carries (b : Bundler) (metadata : Value.Fields) (rebuilt : List BuildUnit)
    (s : Session × σ) :
    ∃ ended s', Carries engines b
        [.say "Bundling done.", .event "watch_batch" none true none metadata, .phase .idle] s
        ended s' ∧
      (ended = .ok () → s'.1.phase = .idle) ∧
      Job.run engines (do
        Job.modify fun s => s.info "Bundling done."
        Job.record "watch_batch" none true none metadata
        enter .idle
        pure rebuilt) s = (ended.map fun _ => rebuilt, s') := by
  have hown : Deed.own? (.event "watch_batch" none true none metadata) = some _ := rfl
  rw [Job.run_bind_of_ok (show Job.run engines (Job.modify fun s => s.info "Bundling done.") s =
    (.ok (), (s.1.info "Bundling done.", s.2)) from rfl)]
  have hevent : Carries engines b [.event "watch_batch" none true none metadata]
    (s.1.info "Bundling done.", s.2) _ _ := carries_own hown _
  -- the event goes to the log, which may not be writable, and then no more deeds are done
  cases h : Job.run engines (Job.record "watch_batch" none true none metadata)
      (s.1.info "Bundling done.", s.2) with
  | mk r m =>
    rw [h] at hevent
    cases r with
    | error e =>
      exact ⟨.error e, m, .next rfl (hevent.append_of_error _), fun h => absurd h (by simp),
        Job.run_bind_of_error h _⟩
    | ok _ =>
      exact ⟨.ok (), _, .next rfl (hevent.append (.next rfl (.done _))), fun _ => rfl,
        Job.run_bind_of_ok h _⟩

/-- **A batch is done as its cycle says.** -/
theorem run_process {batch : Batch} {direct : List String} {dirty : List BuildUnit}
    (h : c.classify batch = .ok (direct, dirty)) (s : Session × σ) :
    ∃ attempts ended s', attempts.map Prod.fst = dirty ∧
      Carries engines c.bundler (c.cycle s.1.store batch direct attempts) s ended s' ∧
      (ended = .ok () → s'.1.phase = .idle) ∧
      Job.run engines (c.process batch) s = (ended.map fun _ => succeeded attempts, s') := by
  obtain ⟨ended, m, hfiles, hrunFiles⟩ :=
    writeAllThrough_carries engines c.bundler direct ({ s.1 with phase := .flushing }, s.2)
  have hstart : Job.run engines (enter .flushing) s =
      (.ok (), ({ s.1 with phase := .flushing }, s.2)) := rfl
  have hlift : Job.run engines (Job.lift (c.classify batch))
      ({ s.1 with phase := .flushing }, s.2) =
      (.ok (direct, dirty), ({ s.1 with phase := .flushing }, s.2)) := by rw [h]; rfl
  have hflushing : Carries engines c.bundler (.phase .flushing ::
      (direct.filterMap (fileThrough? s.1.store)).map fun f => .write f.1 f.2) s ended m :=
    .next rfl hfiles
  unfold process cycle
  rw [Job.run_bind_of_ok hstart, Job.run_bind_of_ok hlift]
  dsimp only
  cases ended with
  | error e =>
    -- a file could not be written: no unit is attempted, so any results will do
    exact ⟨dirty.map fun u => (u, .ok []), .error e, m, by simp [Function.comp_def],
      ((hflushing.append_of_error _).append_of_error _).append_of_error _,
      fun h => absurd h (by simp), Job.run_bind_of_error hrunFiles _⟩
  | ok _ =>
    rw [Job.run_bind_of_ok hrunFiles]
    -- the two deeds between the files and the attempts cannot fail
    have hannounced : Carries engines c.bundler
        [.phase .rebuilding, .say ("Bundling " ++ ", ".intercalate (c.units.map BuildUnit.label))] m
        (.ok ()) _ := .next rfl (.next rfl (.done _))
    obtain ⟨attempts, ended, m', hunits, hattempts, hrunAttempts⟩ :=
      c.rebuildAll_carries engines dirty
        (Session.info { m.1 with phase := .rebuilding }
          ("Bundling " ++ ", ".intercalate (c.units.map BuildUnit.label)), m.2)
    have hmiddle := (hflushing.append hannounced).append hattempts
    cases ended with
    | error e =>
      -- an attempt fails without harm; what has failed is an event
      exact ⟨attempts, .error e, m', hunits, hmiddle.append_of_error _,
        fun h => absurd h (by simp), Job.run_bind_of_error hrunAttempts _⟩
    | ok _ =>
      obtain ⟨ended, s', hconclusion, hidle, hrunConclusion⟩ := conclude_carries engines c.bundler
        (outcome batch direct (attempts.map Prod.fst)) (succeeded attempts) m'
      refine ⟨attempts, ended, s', hunits, hmiddle.append hconclusion, hidle, ?_⟩
      rw [hunits] at hrunConclusion
      exact (Job.run_bind_of_ok hrunAttempts _).trans hrunConclusion

/-- And no unit in it is dirty twice. -/
theorem nodup_of_classify {batch : Batch} {direct : List String} {dirty : List BuildUnit}
    (h : c.classify batch = .ok (direct, dirty)) : dirty.Nodup := by
  unfold classify at h
  obtain ⟨owners, -, h⟩ := Traversal.bind_eq_ok_iff.mp h
  have hdirty : dirtyUnits owners = dirty := congrArg Prod.snd (Except.ok.inj h)
  rw [← hdirty, dirtyUnits_eq]
  exact FirstOccurrence.nodup_eraseDups _

section Deeds

variable (store : Store) (batch : Batch) (direct : List String)
  (attempts : List (BuildUnit × Attempted))

/-- What is looked for among the deeds of a cycle is found in its parts. -/
theorem filterMap_cycle {α : Type} (f : Deed → Option α) :
    (c.cycle store batch direct attempts).filterMap f =
      [.phase .flushing].filterMap f ++
        (direct.filterMap (fileThrough? store)).filterMap (fun file => f (.write file.1 file.2)) ++
        [.phase .rebuilding,
          .say ("Bundling " ++ ", ".intercalate (c.units.map BuildUnit.label))].filterMap f ++
        attempts.flatMap (fun a => (attempting a.1 a.2).filterMap f) ++
        [.say "Bundling done.",
          .event "watch_batch" none true none (outcome batch direct (attempts.map Prod.fst)),
          .phase .idle].filterMap f := by
  unfold cycle
  rw [← List.singleton_append]
  simp only [List.filterMap_append, List.filterMap_map, List.filterMap_flatMap]
  rfl

/-- The files that a cycle writes itself are those it writes through. -/
theorem files_cycle : (c.cycle store batch direct attempts).filterMap Deed.file? =
    direct.filterMap (fileThrough? store) := by
  have hattempting : ∀ a : BuildUnit × Attempted, (attempting a.1 a.2).filterMap Deed.file? = [] := by
    rintro ⟨u, _ | _⟩ <;> rfl
  rw [filterMap_cycle]
  simp [hattempting, Deed.file?, List.filterMap_cons]

/-- The units that it attempts are the dirty ones. -/
theorem attempted_cycle : (c.cycle store batch direct attempts).filterMap Deed.attempted? =
    attempts.map Prod.fst := by
  have hattempting : ∀ a : BuildUnit × Attempted,
      (attempting a.1 a.2).filterMap Deed.attempted? = [a.1] := by
    rintro ⟨u, _ | _⟩ <;> rfl
  rw [filterMap_cycle]
  simp [hattempting, Deed.attempted?, List.filterMap_cons, List.map_eq_flatMap]

/-- What is complained about is every attempt that has failed. -/
theorem complaints_cycle : (c.cycle store batch direct attempts).filterMap Deed.complaint? =
    (failed attempts).map fun f => s!"Failed to bundle {f.1.label}:\n{f.2.message}" := by
  have hattempting : attempts.flatMap (fun a => (attempting a.1 a.2).filterMap Deed.complaint?) =
      (failed attempts).map fun f => s!"Failed to bundle {f.1.label}:\n{f.2.message}" := by
    induction attempts with
    | nil => rfl
    | cons a rest ih =>
      obtain ⟨u, _ | _⟩ := a
      all_goals
        rw [List.flatMap_cons, ih]
        rfl
  rw [filterMap_cycle, hattempting]
  simp [Deed.complaint?, List.filterMap_cons]

/-- Every attempt has its event, and the batch has one behind them. -/
theorem events_cycle : (c.cycle store batch direct attempts).filterMap Deed.event? =
    (attempts.map fun a => ("bundle", some a.1.label, a.2.isOk, errorText? a.2)) ++
      [("watch_batch", none, true, none)] := by
  have hattempting : ∀ a : BuildUnit × Attempted, (attempting a.1 a.2).filterMap Deed.event? =
      [("bundle", some a.1.label, a.2.isOk, errorText? a.2)] := by
    rintro ⟨u, _ | _⟩ <;> rfl
  rw [filterMap_cycle]
  simp [hattempting, Deed.event?, List.filterMap_cons, List.map_eq_flatMap]

end Deeds

/-- **A failing unit holds nobody up.** A batch without a path of nobody's is done as its cycle says:
the direct outputs that are modules and in the store are written, each with its text; every dirty
unit is attempted once, in order; a failure is one line and one event, a success is one event; the
batch has its event behind all of these; and nothing else is done. Unless a write of the
coordinator's own fails, the units that have succeeded are given back, and the phase is idle
again. -/
theorem process_carries {batch : Batch} (h : ∀ path ∈ batch, ∃ o, c.owner path = .ok o)
    (s : Session × σ) :
    ∃ direct attempts ended s',
      c.classify batch = .ok (direct, attempts.map Prod.fst) ∧ (attempts.map Prod.fst).Nodup ∧
      Job.run engines (c.process batch) s = (ended.map fun _ => succeeded attempts, s') ∧
      (ended = .ok () ∧ s'.1.phase = .idle ∨
        ∃ deed ∈ c.cycle s.1.store batch direct attempts, ∃ job ∈ deed.own?, ∃ m e,
          Job.run engines job m = (.error e, s') ∧ ended = .error e) ∧
      Carries engines c.bundler (c.cycle s.1.store batch direct attempts) s ended s' ∧
      (c.cycle s.1.store batch direct attempts).filterMap Deed.file? =
        direct.filterMap (fileThrough? s.1.store) ∧
      (c.cycle s.1.store batch direct attempts).filterMap Deed.attempted? =
        attempts.map Prod.fst ∧
      (c.cycle s.1.store batch direct attempts).filterMap Deed.complaint? =
        ((failed attempts).map fun f => s!"Failed to bundle {f.1.label}:\n{f.2.message}") ∧
      (c.cycle s.1.store batch direct attempts).filterMap Deed.event? =
        (attempts.map fun a => ("bundle", some a.1.label, a.2.isOk, errorText? a.2)) ++
          [("watch_batch", none, true, none)] := by
  obtain ⟨direct, dirty, hclassify⟩ := c.exists_classify h
  obtain ⟨attempts, ended, s', hunits, hcarries, hidle, hrun⟩ := c.run_process engines hclassify s
  refine ⟨direct, attempts, ended, s', hunits ▸ hclassify, hunits ▸ c.nodup_of_classify hclassify,
    hrun, ?_, hcarries, c.files_cycle .., c.attempted_cycle .., c.complaints_cycle ..,
    c.events_cycle ..⟩
  exact hcarries.ended_cases.imp_left fun hended => ⟨hended, hidle hended⟩

/-! ## Two units of which one fails -/

/-- A watch over two units and a file beside them. -/
def twoUnitWatch : Coordinator :=
  ⟨(Bundler.pairOf "index.ts").registry, Bundler.pairOf "index.ts", ["/w/x.ts"]⟩

/-- Outputs of the file and of both units. -/
def batchOfBoth : Batch := ["/w/x.d.ts", "/w/u/src/index.js", "/w/v/src/index.js"]

/-- A session in which the first unit has no output. -/
def sessionOfSecond : Session :=
  (Session.ofDisk ⟨[], []⟩ "").write "/w/v/src/index.js" "v"

/-- Engines that bundle everything to nothing. -/
def blandEngines : Job.Engines Unit := fun q s =>
  match q with
  | .compile _ => (.ok ⟨[], false⟩, s)
  | .bundle _ => (.ok "b", s)
  | .generate .. => (.ok [], s)

/-- Both units are attempted, and only the second one with success. -/
theorem process_carries_oneFailing :
    (∀ path ∈ batchOfBoth, ∃ o, twoUnitWatch.owner path = .ok o) ∧
      ∃ attempts s', attempts.map Prod.fst = twoUnitWatch.units ∧
        Carries blandEngines twoUnitWatch.bundler
          (twoUnitWatch.cycle sessionOfSecond.store batchOfBoth ["/w/x.d.ts"] attempts)
          (sessionOfSecond, ())
          (.ok ()) s' ∧
        Job.run blandEngines (twoUnitWatch.process batchOfBoth) (sessionOfSecond, ()) =
          (.ok [Bundler.unitNamed "v" "index.ts"], s') ∧
        s'.1.phase = .idle := by
  have hu : (twoUnitWatch.owner "/w/u/src/index.js").toOption =
      some (.unit (Bundler.unitNamed "u" "index.ts")) := by decide +kernel
  have hv : (twoUnitWatch.owner "/w/v/src/index.js").toOption =
      some (.unit (Bundler.unitNamed "v" "index.ts")) := by decide +kernel
  have hx : (twoUnitWatch.owner "/w/x.d.ts").toOption = some .passThrough := by decide +kernel
  have howned : ∀ path ∈ batchOfBoth, ∃ o, twoUnitWatch.owner path = .ok o := by
    simp [batchOfBoth, Traversal.toOption_eq_some_iff.mp hu, Traversal.toOption_eq_some_iff.mp hv,
      Traversal.toOption_eq_some_iff.mp hx]
  -- what is direct and what is dirty, by computation
  have hclassify : (twoUnitWatch.classify batchOfBoth).toOption =
      some (["/w/x.d.ts"], twoUnitWatch.units) := by
    decide +kernel
  have hdone : (Job.run blandEngines (twoUnitWatch.process batchOfBoth)
      (sessionOfSecond, ())).1.toOption =
      some [Bundler.unitNamed "v" "index.ts"] := by decide +kernel
  obtain ⟨direct, attempts, ended, s', hsorted, -, hrun, hended, hcarries, -⟩ :=
    process_carries twoUnitWatch blandEngines howned (sessionOfSecond, ())
  obtain ⟨rfl, hunits⟩ := Prod.mk.inj (Except.ok.inj
    (hsorted.symm.trans (Traversal.toOption_eq_some_iff.mp hclassify)))
  rw [hrun] at hdone
  cases ended with
  | error e => exact absurd hdone (by simp [Except.map, Except.toOption])
  | ok _ =>
    -- the run is known to have succeeded, so no deed has failed
    have hidle := (hended.resolve_right (by simp)).2
    refine ⟨howned, attempts, s', hunits, hcarries, ?_, hidle⟩
    rw [hrun]
    exact congrArg (·, s') (congrArg Except.ok (Option.some.inj hdone))

end Coordinator

end Packwright.Watch
