import Mathlib
import Packwright.Proofs.Bundle.Siblings
import Packwright.Proofs.Disk
import Packwright.Proofs.Job
import Packwright.Proofs.Path.File

/-!
# Bundles that are not finished

The bundles of a unit are generated and written one after the other, so a failure comes before some
of them and behind others. Nothing is taken back: what was finished stays written, and nothing else
is touched.

* `finishedFiles` are the files of a group of artifacts, up to the first one that is spoiled, and
  `filesOf` are the files that an exchange with the bundler brings.
* `Writes`: a job writes what its exchanges bring, and it fails at the last of them if it fails.
  `writes_emit` is one group, `Writes.bind` puts groups together.
* `failed_bundle_keeps`: a failed bundling has written what was finished, and kept everything else.
-/

namespace Packwright

/-! ## The files of an artifact -/

namespace Bundle

-- the source map is written before the code that refers to it
def filesFor (options : OutputOptions) (fileName code : String) :
    Option String → List (FilePath × String)
  | none => [(options.file.parent.child fileName, code)]
  | some map =>
    let mapName := fileName ++ ".map"
    [(options.file.parent.child mapName, map),
      (options.file.parent.child fileName, withReference code mapName)]

/-- The files of an artifact. -/
def artifactFiles (options : OutputOptions) (transform : Transform) (a : Artifact) :
    Except Failure (List (FilePath × String)) := do
  let map? ← mapText options a
  let (code, map?) ← transform a.code map?
  pure (filesFor options a.fileName code map?)

/-- Writes files in turn. -/
def writeFiles : List (FilePath × String) → Job Unit
  | [] => pure ()
  | f :: rest => do
    Job.writeText f.1 f.2
    writeFiles rest

/-- The files of a group of artifacts: of those in front of the first that has none. -/
def finishedFiles (options : OutputOptions) (transform : Transform) :
    List Artifact → List (FilePath × String)
  | [] => []
  | a :: rest =>
    match artifactFiles options transform a with
    | .ok files => files ++ finishedFiles options transform rest
    | .error _ => []

/-- An artifact without files in a group, and why it has none; those in front of it have some. -/
def Spoils (options : OutputOptions) (transform : Transform) (artifacts : List Artifact)
    (e : Failure) : Prop :=
  ∃ before a rest, artifacts = before ++ a :: rest ∧
    artifactFiles options transform a = .error e ∧
    ∀ x ∈ before, ∃ files, artifactFiles options transform x = .ok files

variable {options : OutputOptions} {transform : Transform}

/-- **Writing an artifact is finding its files and then writing them.** What can go wrong before
that is in the first step, so nothing of a spoiled artifact is written. -/
theorem writeArtifact_eq (a : Artifact) :
    writeArtifact options transform a = (do
      let files ← Job.lift (artifactFiles options transform a)
      writeFiles files
      pure (files.map Prod.fst)) := by
  unfold writeArtifact artifactFiles
  cases mapText options a with
  | error e => rfl
  | ok map? =>
    show Job.lift (transform a.code map?) >>= _ = Job.lift (transform a.code map? >>= _) >>= _
    cases transform a.code map? with
    | error e => rfl
    | ok written =>
      -- a transformed artifact has one file, or two with its map
      obtain ⟨code, map?⟩ := written
      show _ = writeFiles (filesFor options a.fileName code map?) >>= _
      cases map? <;> simp only [filesFor, writeFiles, bind_assoc, pure_bind] <;> rfl

section Running

variable {σ : Type} (engines : Job.Engines σ) {s : Session × σ} {d : Disk}

/-- Writing a text that can be written changes the disk to what it is with the text. -/
theorem run_writeText {f : FilePath × String} (h : s.1.disk.writeText f = .ok d) :
    Job.run engines (Job.writeText f.1 f.2) s = (.ok (), ({ s.1 with disk := d }, s.2)) := by
  obtain ⟨made, hmade, hwrite⟩ := Traversal.bind_eq_ok_iff.mp h
  have hfirst : Job.run engines (Job.onDisk fun d => d.makeDirectories f.1.parent) s =
      (.ok (), ({ s.1 with disk := made }, s.2)) := by
    rw [Job.run_onDisk, hmade]
  unfold Job.writeText
  rw [Job.run_bind_of_ok hfirst, Job.run_onDisk]
  simp only [hwrite]

/-- Writing several files, one after another. Induction on the files. -/
theorem run_writeFiles {files : List (FilePath × String)} (h : s.1.disk.writeTexts files = .ok d) :
    Job.run engines (writeFiles files) s = (.ok (), ({ s.1 with disk := d }, s.2)) := by
  induction files generalizing s with
  | nil =>
    cases h
    rfl
  | cons f rest ih =>
    obtain ⟨m, hfirst, hrest⟩ := Traversal.bind_eq_ok_iff.mp h
    rw [writeFiles, Job.run_bind_of_ok (run_writeText engines hfirst), ih hrest]

/-- An artifact whose files can be found and written is written, and the paths of its files are what
is left to say. -/
theorem run_writeArtifact {a : Artifact} {files : List (FilePath × String)}
    (hfiles : artifactFiles options transform a = .ok files)
    (h : s.1.disk.writeTexts files = .ok d) :
    Job.run engines (writeArtifact options transform a) s =
      (.ok (files.map Prod.fst), ({ s.1 with disk := d }, s.2)) := by
  rw [writeArtifact_eq, hfiles]
  exact Job.run_bind_of_ok (run_writeFiles engines h) _

/-- **A group is written** up to the first artifact that is spoiled; if there is one, it is what ends
the writing. -/
theorem run_writeAll {artifacts : List Artifact}
    (h : s.1.disk.writeTexts (finishedFiles options transform artifacts) = .ok d) :
    ∃ r, Job.run engines (writeAll options transform artifacts) s =
        (r, ({ s.1 with disk := d }, s.2)) ∧
      ∀ e, r = .error e → Spoils options transform artifacts e := by
  induction artifacts generalizing s with
  | nil =>
    cases h
    exact ⟨.ok [], rfl, fun e he => absurd he (by simp)⟩
  | cons a rest ih =>
    rw [writeAll]
    unfold finishedFiles at h
    cases hfiles : artifactFiles options transform a with
    | error e =>
      -- nothing is written, for this artifact and for those behind it
      rw [hfiles] at h
      cases h
      have hrun : Job.run engines (writeArtifact options transform a) s = (.error e, s) := by
        rw [writeArtifact_eq, hfiles]
        rfl
      refine ⟨.error e, Job.run_bind_of_error hrun _, fun e' he => ?_⟩
      cases he
      exact ⟨[], a, rest, rfl, hfiles, fun x hx => absurd hx List.not_mem_nil⟩
    | ok files =>
      rw [hfiles] at h
      obtain ⟨m, hfirst, hothers⟩ := Disk.writeTexts_append.mp h
      obtain ⟨r, hrunOthers, hspoils⟩ := ih (s := ({ s.1 with disk := m }, s.2)) hothers
      rw [Job.run_bind_of_ok (run_writeArtifact engines hfiles hfirst), Job.run_bind_pure,
        hrunOthers]
      refine ⟨_, rfl, fun e he => ?_⟩
      cases r with
      | ok paths => exact absurd he (by simp [Except.map])
      | error e' =>
        cases he
        obtain ⟨before, b, more, rfl, hb, hbefore⟩ := hspoils e rfl
        exact ⟨a :: before, b, more, rfl, hb, List.forall_mem_cons.mpr ⟨⟨files, hfiles⟩, hbefore⟩⟩

end Running

end Bundle

/-! ## What a job has written -/

namespace Bundler

open Packwright.Bundle Packwright.Job

variable (b : Bundler) (u : BuildUnit)

/-- What is done to the artifacts that are generated with these options: only the modules are
annotated. -/
def transformOf (options : OutputOptions) : Transform :=
  if options = b.esmOptions u then annotating b.outputs else untouched

/-- The files that an exchange brings. -/
def filesOf : Exchange → List (FilePath × String)
  | ⟨.generate _ _ options, .ok artifacts⟩ => finishedFiles options (b.transformOf u options) artifacts
  | _ => []

-- the options of an exchange that asks for artifacts
def optionsOf? : Exchange → Option OutputOptions
  | ⟨.generate _ _ options, _⟩ => some options
  | _ => none

/-- What has stopped a job at its last exchange: it has failed, or it has brought an artifact that
is spoiled. -/
inductive Stops : List Exchange → Failure → Prop
  | unanswered (before : List Exchange) (q : Question) (e : Failure) :
      Stops (before ++ [⟨q, .error e⟩]) e
  | spoiled (before : List Exchange) {build : String} {request : BundleRequest}
      {options : OutputOptions} {artifacts : List Artifact} {e : Failure}
      (h : Spoils options (b.transformOf u options) artifacts e) :
      Stops (before ++ [⟨.generate build request options, .ok artifacts⟩]) e

variable {b u} in
/-- What ends a job in its later exchanges ends it with the earlier ones in front. -/
theorem Stops.append {exchanges : List Exchange} {e : Failure} (h : b.Stops u exchanges e)
    (first : List Exchange) : b.Stops u (first ++ exchanges) e := by
  cases h with
  | unanswered before q e =>
    rw [← List.append_assoc]
    exact .unanswered _ q e
  | spoiled before h =>
    rw [← List.append_assoc]
    exact .spoiled _ h

variable {σ α β : Type} (engines : Engines σ)

/-- Engines that leave the disk to the jobs. -/
def KeepsDisk : Prop :=
  ∀ q s, (engines q s).2.1.disk = s.1.disk

/-- If the files that its exchanges bring can be written, a job writes these and nothing else, and it
fails at its last exchange if it fails. -/
def Writes (job : Job α) (s : Session × σ) : Prop :=
  ∀ d, s.1.disk.writeTexts ((exchanges engines job s).flatMap (b.filesOf u)) = .ok d →
    (run engines job s).2.1.disk = d ∧
      ∀ e, (run engines job s).1 = .error e → b.Stops u (exchanges engines job s) e

/-- A job asks for artifacts with these options, one after the other; with all of them if it
succeeds. -/
def Generates (options : List OutputOptions) (job : Job α) (s : Session × σ) : Prop :=
  (exchanges engines job s).filterMap optionsOf? <+: options ∧
    ∀ a, (run engines job s).1 = .ok a → (exchanges engines job s).filterMap optionsOf? = options

variable {b u engines} {job : Job α} {f : α → Job β} {s : Session × σ}

/-- **A job that writes the files of its exchanges** may go on with one that does. -/
theorem Writes.bind (h : b.Writes u engines job s)
    (hf : ∀ a m, run engines job s = (.ok a, m) → b.Writes u engines (f a) m) :
    b.Writes u engines (job >>= f) s := by
  intro d hd
  cases hrun : run engines job s with
  | mk r m =>
    cases r with
    | error e =>
      -- the second job is not run, so it brings nothing
      rw [exchanges_bind_of_error hrun] at hd ⊢
      rw [run_bind_of_error hrun]
      have hfirst := h d hd
      rw [hrun] at hfirst
      exact ⟨hfirst.1, fun e' he => hfirst.2 e' (by cases he; rfl)⟩
    | ok a =>
      rw [exchanges_bind_of_ok hrun, List.flatMap_append] at hd
      obtain ⟨m', hwritten, hothers⟩ := Disk.writeTexts_append.mp hd
      -- the second job starts from the disk that the files of the first one have led to
      have hdisk : m.1.disk = m' := by
        have hfirst := (h m' hwritten).1
        rwa [hrun] at hfirst
      rw [← hdisk] at hothers
      obtain ⟨hend, hstops⟩ := hf a m hrun d hothers
      rw [exchanges_bind_of_ok hrun, run_bind_of_ok hrun]
      exact ⟨hend, fun e he => (hstops e he).append _⟩

/-- The groups that two jobs ask for come one after another, and a failure of the first one leaves
out the others. -/
theorem Generates.bind {first others : List OutputOptions} (h : Generates engines first job s)
    (hf : ∀ a m, run engines job s = (.ok a, m) → Generates engines others (f a) m) :
    Generates engines (first ++ others) (job >>= f) s := by
  obtain ⟨hfront, hall⟩ := h
  unfold Generates
  cases hrun : run engines job s with
  | mk r m =>
    cases r with
    | error e =>
      rw [exchanges_bind_of_error hrun, run_bind_of_error hrun]
      exact ⟨hfront.trans (List.prefix_append _ _), fun a ha => absurd ha (by simp)⟩
    | ok a =>
      obtain ⟨hsecond, hallOthers⟩ := hf a m hrun
      -- the first job has succeeded, so it has asked for all of its groups
      have hfirst := hall a (by rw [hrun])
      rw [exchanges_bind_of_ok hrun, run_bind_of_ok hrun, List.filterMap_append, hfirst]
      exact ⟨List.prefix_append_right_inj _ |>.mpr hsecond,
        fun a ha => by rw [hallOthers a ha]⟩

/-! ## Bundling -/

/-- Asking an engine writes nothing, as long as engines leave the disk alone. -/
theorem writes_request (hengines : KeepsDisk engines) (request : BundleRequest) (s : Session × σ) :
    b.Writes u engines (Job.request (.bundle request)) s := by
  intro d hd
  cases hd
  refine ⟨hengines _ _, fun e he => ?_⟩
  show b.Stops u [⟨.bundle request, (engines (.bundle request) s).1⟩] e
  rw [show (engines (.bundle request) s).1 = .error e from he]
  exact .unanswered [] _ e

/-- Writing asks nothing. -/
theorem exchanges_writeFiles (files : List (FilePath × String)) (s : Session × σ) :
    exchanges engines (writeFiles files) s = [] := by
  induction files generalizing s with
  | nil => rfl
  | cons f rest ih =>
    exact exchanges_bind_eq_nil (exchanges_writeText engines f.1 f.2 s) fun _ m _ => ih m

/-- Writing the artifacts of a group asks nothing, whatever becomes of it. -/
theorem exchanges_writeAll (options : OutputOptions) (transform : Transform)
    (artifacts : List Artifact) (s : Session × σ) :
    exchanges engines (writeAll options transform artifacts) s = [] := by
  induction artifacts generalizing s with
  | nil => rfl
  | cons a rest ih =>
    refine exchanges_bind_eq_nil ?_ fun _ m _ => exchanges_bind_eq_nil (ih m) fun _ _ _ => rfl
    rw [writeArtifact_eq]
    refine exchanges_bind_eq_nil rfl fun files m _ => ?_
    exact exchanges_bind_eq_nil (exchanges_writeFiles files m) fun _ _ _ => rfl

/-- **A group is asked for once**, and that is all that is asked while it is written. -/
theorem exchanges_emit (build : String) (request : BundleRequest) (options : OutputOptions)
    (transform : Transform) (s : Session × σ) :
    exchanges engines (emit build request options transform) s =
      [⟨.generate build request options, (engines (.generate build request options) s).1⟩] := by
  unfold emit
  cases hrun : engines (.generate build request options) s with
  | mk r m =>
    have hask : run engines (Job.request (.generate build request options)) s = (r, m) := hrun
    -- the one question is the first thing that is done
    have hfirst : exchanges engines (Job.request (.generate build request options)) s =
        [⟨.generate build request options, r⟩] := by
      show [(⟨_, (engines (.generate build request options) s).1⟩ : Exchange)] = _
      rw [hrun]
    cases r with
    | error e => rw [exchanges_bind_of_error hask, hfirst]
    | ok artifacts => rw [exchanges_bind_of_ok hask, exchanges_writeAll, hfirst, List.append_nil]

/-- **A group of artifacts** is generated and written. -/
theorem writes_emit (hengines : KeepsDisk engines) {build : String} {request : BundleRequest}
    {options : OutputOptions} {transform : Transform}
    (htransform : b.transformOf u options = transform) (s : Session × σ) :
    b.Writes u engines (emit build request options transform) s := by
  intro d hd
  have hkept := hengines (.generate build request options) s
  rw [exchanges_emit] at hd ⊢
  unfold emit
  cases hrun : engines (.generate build request options) s with
  | mk r m =>
    have hask : run engines (Job.request (.generate build request options)) s = (r, m) := hrun
    rw [hrun] at hd hkept
    dsimp only at hkept
    -- either no artifact has come, or those that have come are written up to the first spoiled one
    cases r with
    | error e =>
      cases hd
      rw [run_bind_of_error hask]
      refine ⟨hkept, fun e' he => ?_⟩
      cases he
      exact .unanswered [] _ e
    | ok artifacts =>
      rw [List.flatMap_singleton, filesOf, htransform, ← hkept] at hd
      obtain ⟨r, hwritten, hspoils⟩ := run_writeAll engines hd
      rw [run_bind_of_ok hask, hwritten]
      refine ⟨rfl, fun e he => ?_⟩
      exact .spoiled [] (htransform ▸ hspoils e he)

/-- Writing a group asks for this group. -/
theorem generates_emit (build : String) (request : BundleRequest) (options : OutputOptions)
    (transform : Transform) (s : Session × σ) :
    Generates engines [options] (emit build request options transform) s := by
  unfold Generates
  rw [exchanges_emit]
  exact ⟨List.prefix_refl _, fun _ _ => rfl⟩

theorem writes_pure (a : α) (s : Session × σ) : b.Writes u engines (pure a) s := by
  intro d hd
  cases hd
  exact ⟨rfl, fun e he => absurd he (by simp [pure, run])⟩

theorem generates_pure (a : α) (s : Session × σ) : Generates engines [] (pure a) s :=
  ⟨List.prefix_refl _, fun _ _ => rfl⟩

theorem generates_request (request : BundleRequest) (s : Session × σ) :
    Generates engines [] (Job.request (.bundle request)) s :=
  ⟨List.prefix_refl _, fun _ _ => rfl⟩

/-- A group whose first artifact is spoiled brings no files. -/
theorem filesOf_eq_nil {x : Exchange}
    (h : ∀ build request options artifacts, x = ⟨.generate build request options, .ok artifacts⟩ →
      ∀ a ∈ artifacts.head?, ∃ e, artifactFiles options (b.transformOf u options) a = .error e) :
    b.filesOf u x = [] := by
  obtain ⟨q, answer⟩ := x
  cases q with
  | compile request => rfl
  | bundle request => rfl
  | generate build request options =>
    cases answer with
    | error e => rfl
    | ok artifacts =>
      show finishedFiles options (b.transformOf u options) artifacts = []
      -- the first artifact is spoiled, so none of the group is finished
      cases artifacts with
      | nil => rfl
      | cons a rest =>
        obtain ⟨e, he⟩ := h build request options (a :: rest) rfl a rfl
        rw [finishedFiles, he]

variable (b u) in
/-- A bundling whose module request stands. -/
def bundling (modules : BundleRequest) : Job (List FilePath) := do
  let build ← Job.request (.bundle modules)
  let esm ← emit build modules (b.esmOptions u) (annotating b.outputs)
  let cjs ← emit build modules (b.cjsOptions u) untouched
  let build ← Job.request (.bundle (b.declarationRequest u))
  let types ← emit build (b.declarationRequest u) (declarationOptions u) untouched
  pure (esm ++ cjs ++ types)

/-- Modules of the second format are written as they are bundled. -/
theorem transformOf_cjsOptions : b.transformOf u (b.cjsOptions u) = untouched :=
  if_neg fun h => absurd (congrArg OutputOptions.format h) (by simp [cjsOptions, esmOptions])

/-- So are declarations, which are no modules of the first format: they have a file of their own. -/
theorem transformOf_declarationOptions : b.transformOf u (declarationOptions u) = untouched := by
  refine if_neg fun h => ?_
  have hfile : u.distDir.child "index.d.ts" = u.distDir.child "index.js" :=
    congrArg OutputOptions.file h
  rw [FilePath.child_name _ (by decide), FilePath.child_name _ (by decide)] at hfile
  simp at hfile

/-- **Bundling a unit writes what its exchanges bring**: two builds, with two groups of modules and
one of declarations. -/
theorem writes_bundling (hengines : KeepsDisk engines) (modules : BundleRequest)
    (s : Session × σ) : b.Writes u engines (b.bundling u modules) s := by
  refine (writes_request hengines _ s).bind fun build m _ => ?_
  refine (writes_emit hengines (if_pos rfl) m).bind fun esm m _ => ?_
  refine (writes_emit hengines transformOf_cjsOptions m).bind fun cjs m _ => ?_
  refine (writes_request hengines _ m).bind fun build m _ => ?_
  exact (writes_emit hengines transformOf_declarationOptions m).bind fun types m _ =>
    writes_pure _ m

/-- Bundling a unit asks for its three groups in this order, up to where it fails. -/
theorem generates_bundling (modules : BundleRequest) (s : Session × σ) :
    Generates engines [b.esmOptions u, b.cjsOptions u, declarationOptions u]
      (b.bundling u modules) s := by
  refine (generates_request _ s).bind fun build m _ => ?_
  refine (generates_emit _ _ _ _ m).bind fun esm m _ => ?_
  refine (generates_emit _ _ _ _ m).bind fun cjs m _ => ?_
  refine (generates_request _ m).bind fun build m _ => ?_
  exact (generates_emit _ _ _ _ m).bind fun types m _ => generates_pure _ m

variable (engines) in
/-- With a request that can be made, bundling a unit is the job that carries it out. -/
theorem run_bundle_of_ok {modules : BundleRequest} (h : b.moduleRequest u s.1.store = .ok modules) :
    run engines (b.bundle u) s = run engines (b.bundling u modules) s ∧
      exchanges engines (b.bundle u) s = exchanges engines (b.bundling u modules) s := by
  have hsession : run engines Job.session s = (.ok s.1, s) := rfl
  unfold bundle
  rw [run_bind_of_ok hsession, exchanges_bind_of_ok hsession, h]
  exact ⟨rfl, rfl⟩

variable (engines) in
/-- Without one nothing is asked and nothing is done. -/
theorem run_bundle_of_error {x : BundleError} (h : b.moduleRequest u s.1.store = .error x) :
    run engines (b.bundle u) s = (.error (.bundle x), s) ∧
      exchanges engines (b.bundle u) s = [] := by
  have hsession : run engines Job.session s = (.ok s.1, s) := rfl
  unfold bundle
  rw [run_bind_of_ok hsession, exchanges_bind_of_ok hsession, h]
  exact ⟨rfl, rfl⟩

/-- **The three groups are generated in order**, as far as the bundling comes. -/
theorem groups_bundle (s : Session × σ) :
    (exchanges engines (b.bundle u) s).filterMap optionsOf? <+:
      [b.esmOptions u, b.cjsOptions u, declarationOptions u] := by
  cases hmodules : b.moduleRequest u s.1.store with
  | error x =>
    rw [(run_bundle_of_error engines hmodules).2]
    exact List.nil_prefix
  | ok modules =>
    rw [(run_bundle_of_ok engines hmodules).2]
    exact (generates_bundling modules s).1

variable {s' : Session × σ} {e : Failure} {d : Disk}

/-- How a bundle fails: its request cannot be made, or one of its exchanges ends it; and what is on
the disk then. -/
theorem stops_bundle (hengines : KeepsDisk engines)
    (hrun : run engines (b.bundle u) s = (.error e, s'))
    (hd : s.1.disk.writeTexts ((exchanges engines (b.bundle u) s).flatMap (b.filesOf u)) = .ok d) :
    s'.1.disk = d ∧
      ((exchanges engines (b.bundle u) s = [] ∧
          ∃ x, b.moduleRequest u s.1.store = .error x ∧ e = .bundle x) ∨
        b.Stops u (exchanges engines (b.bundle u) s) e) := by
  cases hmodules : b.moduleRequest u s.1.store with
  -- a request that cannot be made ends the bundle before anything is asked
  | error x =>
    obtain ⟨hfails, hasked⟩ := run_bundle_of_error engines hmodules
    rw [hasked] at hd
    cases hd
    cases hrun.symm.trans hfails
    exact ⟨rfl, Or.inl ⟨hasked, x, rfl, rfl⟩⟩
  | ok modules =>
    obtain ⟨hgoes, hasked⟩ := run_bundle_of_ok engines hmodules
    rw [hgoes] at hrun
    rw [hasked] at hd ⊢
    obtain ⟨hdisk, hstops⟩ := writes_bundling hengines modules s d hd
    rw [hrun] at hdisk hstops
    exact ⟨hdisk, Or.inr (hstops e rfl)⟩

/-- **A failed bundling has written what was finished**, and kept everything else. If all that its
exchanges have brought can be written, it was refused or has failed at its last exchange, and it has
asked for its three groups in order. The disk is as after writing the files of the artifacts in front
of the failure. A file that no path of these leads to is as it was, and so is the whole disk if no
group was delivered whose first artifact has files. -/
theorem failed_bundle_keeps (hengines : KeepsDisk engines)
    (hrun : run engines (b.bundle u) s = (.error e, s'))
    (hd : s.1.disk.writeTexts ((exchanges engines (b.bundle u) s).flatMap (b.filesOf u)) = .ok d) :
    let asked := exchanges engines (b.bundle u) s
    ((asked = [] ∧ ∃ x, b.moduleRequest u s.1.store = .error x ∧ e = .bundle x) ∨
      b.Stops u asked e) ∧
    asked.filterMap optionsOf? <+: [b.esmOptions u, b.cjsOptions u, declarationOptions u] ∧
    s'.1.disk = d ∧
    (∀ location ∉ s.1.disk.touched (asked.flatMap (b.filesOf u)), ∀ bytes,
      Disk.entry? s'.1.disk location = some (.file bytes) ↔
        Disk.entry? s.1.disk location = some (.file bytes)) ∧
    ((∀ build request options artifacts, ⟨.generate build request options, .ok artifacts⟩ ∈ asked →
        ∀ a ∈ artifacts.head?, ∃ e, artifactFiles options (b.transformOf u options) a = .error e) →
      s'.1.disk = s.1.disk) := by
  intro asked
  obtain ⟨hdisk, hstops⟩ := stops_bundle hengines hrun hd
  refine ⟨hstops, groups_bundle s, hdisk, fun location hnot bytes => ?_, fun hnone => ?_⟩
  · rw [hdisk]
    exact Disk.files_writeTexts hd hnot bytes
  · -- an exchange whose first artifact is spoiled brings no files
    have hnothing : asked.flatMap (b.filesOf u) = [] := by
      refine List.flatMap_eq_nil_iff.mpr fun x hx => filesOf_eq_nil ?_
      rintro build request options artifacts rfl
      exact hnone build request options artifacts hx
    rw [hnothing] at hd
    cases hd
    exact hdisk

/-! ## A unit whose declarations cannot be bundled -/

/-- A unit with bundles of an earlier build, each of them one byte: here are those of the modules. -/
def distDisk (esm cjs : UInt8) : Disk where
  entries := [(["w"], .directory), (["w", "u"], .directory), (["w", "u", "dist"], .directory),
    (["w", "u", "dist", "index.js"], .file [esm]), (["w", "u", "dist", "index.cjs"], .file [cjs]),
    (["w", "u", "dist", "index.d.ts"], .file [0])]
  cwd := []

/-- The module of the unit is stored, and a new build of it consists of one letter. -/
def distSession : Session :=
  (Session.ofDisk (distDisk 0 0) "").write "/w/u/src/index.js" "u"

def distBundler : Bundler := pairOf "index.ts"

def distUnit : BuildUnit := unitNamed "u" "index.ts"

-- the file of each module of the new build
def esmFile : FilePath × String := (.ofLocation ["w", "u", "dist", "index.js"], "u")

def cjsFile : FilePath × String := (.ofLocation ["w", "u", "dist", "index.cjs"], "u")

/-- Engines that generate one file for each group, but bundle no declarations. -/
def moduleEngines : Engines Unit := fun q s =>
  match q with
  | .compile _ => (.ok ⟨[], false⟩, s)
  | .bundle request => (if request.muted = [] then .ok "b" else .error (.breakdown "no types"), s)
  | .generate _ _ options => (.ok [⟨options.file.name, "u", none⟩], s)

theorem keepsDisk_moduleEngines : KeepsDisk moduleEngines := by
  rintro (_ | _ | _) s <;> rfl

def distRequest : BundleRequest where
  unit := "u"
  input := "/w/u/src/index.js"
  externals := ["v"]
  plugins := [VirtualOutput.toPlugin ⟨".js", none, distBundler.aliases⟩]
  muted := []

theorem moduleRequest_dist :
    distBundler.moduleRequest distUnit distSession.store = .ok distRequest := by
  have hinput : entryOutput distUnit ".js" = "/w/u/src/index.js" := by decide
  have hstored : distSession.store.has "/w/u/src/index.js" = true := by decide +kernel
  have hothers : distBundler.siblings distUnit = ["v"] := by decide
  unfold moduleRequest
  rw [hinput]
  dsimp only
  rw [if_pos hstored, hothers]
  rfl

theorem writeTexts_esm : (distDisk 0 0).writeTexts [esmFile] = .ok (distDisk 117 0) := by cbv

theorem writeTexts_cjs : (distDisk 117 0).writeTexts [cjsFile] = .ok (distDisk 117 117) := by cbv

theorem writeTexts_dist :
    (distDisk 0 0).writeTexts [esmFile, cjsFile] = .ok (distDisk 117 117) := by
  rw [← List.singleton_append]
  exact Disk.writeTexts_append.mpr ⟨distDisk 117 0, writeTexts_esm, writeTexts_cjs⟩

/-- A group of one artifact with one file, as the engines of the example bring it. -/
theorem run_emit_dist {options : OutputOptions} {transform : Transform} {f : FilePath × String}
    {s : Session × Unit} {d : Disk} (request : BundleRequest)
    (hf : artifactFiles options transform ⟨options.file.name, "u", none⟩ = .ok [f])
    (hd : s.1.disk.writeTexts [f] = .ok d) :
    run moduleEngines (emit "b" request options transform) s =
      (.ok [f.1], ({ s.1 with disk := d }, s.2)) := by
  have hask : run moduleEngines (Job.request (.generate "b" request options)) s =
      (.ok [⟨options.file.name, "u", none⟩], s) := rfl
  unfold emit
  rw [run_bind_of_ok hask, writeAll, run_bind_of_ok (run_writeArtifact moduleEngines hf hd)]
  rfl

/-- Both modules are written, and then the bundling fails. -/
theorem run_bundle_dist :
    run moduleEngines (distBundler.bundle distUnit) (distSession, ()) =
        (.error (.breakdown "no types"), ({ distSession with disk := distDisk 117 117 }, ())) ∧
      (exchanges moduleEngines (distBundler.bundle distUnit) (distSession, ())).flatMap
        (distBundler.filesOf distUnit) = [esmFile, cjsFile] := by
  obtain ⟨hrun, hasked⟩ := run_bundle_of_ok moduleEngines (s := (distSession, ())) moduleRequest_dist
  have hesm : artifactFiles (distBundler.esmOptions distUnit) (annotating distBundler.outputs)
      ⟨"index.js", "u", none⟩ = .ok [esmFile] := by decide +kernel
  have hcjs : artifactFiles (distBundler.cjsOptions distUnit) untouched
      ⟨"index.cjs", "u", none⟩ = .ok [cjsFile] := by decide +kernel
  -- each step is given with the session that it leaves, to be chained to the next
  have hmodules : run moduleEngines (Job.request (.bundle distRequest)) (distSession, ()) =
      (.ok "b", (distSession, ())) := rfl
  have hwriteEsm := run_emit_dist (s := (distSession, ())) distRequest hesm writeTexts_esm
  have hwriteCjs := run_emit_dist (s := ({ distSession with disk := distDisk 117 0 }, ()))
    distRequest hcjs writeTexts_cjs
  have htypes : run moduleEngines (Job.request (.bundle (distBundler.declarationRequest distUnit)))
      ({ distSession with disk := distDisk 117 117 }, ()) =
      (.error (.breakdown "no types"), ({ distSession with disk := distDisk 117 117 }, ())) := rfl
  rw [hrun, hasked]
  unfold bundling
  constructor
  · rw [run_bind_of_ok hmodules, run_bind_of_ok hwriteEsm, run_bind_of_ok hwriteCjs,
      run_bind_of_error htypes]
  · rw [exchanges_bind_of_ok hmodules, exchanges_bind_of_ok hwriteEsm, exchanges_emit,
      exchanges_bind_of_ok hwriteCjs, exchanges_emit, exchanges_bind_of_error htypes]
    decide +kernel

/-- The declarations of the earlier build are kept. -/
theorem failed_bundle_keeps_declarations :
    KeepsDisk moduleEngines ∧ ∃ s',
      run moduleEngines (distBundler.bundle distUnit) (distSession, ()) =
        (.error (.breakdown "no types"), s') ∧
      (distDisk 0 0).writeTexts [esmFile, cjsFile] = .ok (distDisk 117 117) ∧
      s'.1.disk = distDisk 117 117 ∧
      Disk.entry? s'.1.disk ["w", "u", "dist", "index.d.ts"] = some (.file [0]) := by
  obtain ⟨hrun, hfiles⟩ := run_bundle_dist
  have hd := writeTexts_dist
  have htouched : (distDisk 0 0).touched [esmFile, cjsFile] =
      [["w", "u", "dist", "index.js"], ["w", "u", "dist", "index.cjs"]] := by cbv
  have hnot : ["w", "u", "dist", "index.d.ts"] ∉ (distDisk 0 0).touched [esmFile, cjsFile] := by
    rw [htouched]
    decide
  rw [← hfiles] at hd hnot
  obtain ⟨-, -, hdisk, hkept, -⟩ := failed_bundle_keeps keepsDisk_moduleEngines hrun hd
  have htypes := (hkept ["w", "u", "dist", "index.d.ts"] hnot [0]).mpr (by decide)
  exact ⟨keepsDisk_moduleEngines, _, hrun, writeTexts_dist, hdisk, htypes⟩

/-- **A failed bundling may have replaced a module**: here it fails at the declarations. -/
theorem exists_replaced_module :
    ∃ (b : Bundler) (u : BuildUnit) (engines : Engines Unit) (s s' : Session × Unit) (e : Failure)
      (d : Disk),
      KeepsDisk engines ∧ run engines (b.bundle u) s = (.error e, s') ∧
      s.1.disk.writeTexts ((exchanges engines (b.bundle u) s).flatMap (b.filesOf u)) = .ok d ∧
      u.distDir = .ofLocation ["w", "u", "dist"] ∧
      Disk.entry? s.1.disk ["w", "u", "dist", "index.js"] = some (.file [0]) ∧
      Disk.entry? s'.1.disk ["w", "u", "dist", "index.js"] = some (.file [117]) :=
  ⟨distBundler, distUnit, moduleEngines, (distSession, ()), _, _, distDisk 117 117,
    keepsDisk_moduleEngines, run_bundle_dist.1, run_bundle_dist.2 ▸ writeTexts_dist, by decide,
    by decide, by decide⟩

end Bundler

end Packwright
