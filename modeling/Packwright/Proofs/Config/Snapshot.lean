import Packwright.Proofs.Config.Composition
import Packwright.Proofs.Resolving

/-!
# Snapshots of a configuration

A configuration can be written out as a file. The file is accepted, and every setting is read back
from it as it was; but a configuration without an event log is read back as one that logs to the
workspace itself, since the log is written as a null.

* `at?_toFields`: what a snapshot says under each key.
* `isSettled_eventLog`: on one disk, an event log stays what resolving has made of it, so that it
  can be read back from its text and is resolved to itself.
-/

namespace Packwright.Config

open FilePath (Descends IsStep IsWritten)

/-! ## Configurations of one disk -/

/-- The configurations that come from the initial one of a workspace by merging on a disk, as often
as one likes. Event logs on the command line are paths as they are written. -/
inductive ReachableOn (disk : Disk) (workspace : FilePath) : Config → Prop
  | initial : ReachableOn disk workspace (Config.initial workspace)
  | merged {base c : Config} (payload : Value.Fields) (o : Overrides)
      (hwritten : ∀ p ∈ o.eventLog?, IsWritten p) (hbase : ReachableOn disk workspace base)
      (hmerge : merge disk base payload o = .ok c) : ReachableOn disk workspace c

section Disks

variable {disk : Disk} {workspace : FilePath} {c : Config}

/-- What is reached on one disk is reached. -/
theorem ReachableOn.reachableFrom (h : ReachableOn disk workspace c) :
    ReachableFrom workspace c := by
  induction h with
  | initial => exact .initial
  | merged payload o _ _ hmerge ih => exact .merged disk payload o ih hmerge

/-- Whether a path is one that resolving leaves as it is, and that can be read back. -/
structure IsSettled (disk : Disk) (p : FilePath) : Prop where
  descends : p.Descends
  resolved : disk.resolve p = .ok p

/-- A resolved path is settled: resolving it again leaves it. -/
theorem isSettled_of_resolve (hgrounded : disk.Grounded)
    (hcwd : (FilePath.ofLocation disk.cwd).Descends) {p q : FilePath}
    (hp : ∀ part ∈ p.parts, IsStep part) (hq : disk.resolve p = .ok q) : IsSettled disk q :=
  ⟨Disk.descends_of_resolve hcwd hp hq, Disk.resolve_resolve hgrounded hq⟩

/-- The event log of a file is seen from the workspace. -/
theorem eq_child_of_fileLog? {payload : Value.Fields} {p : FilePath}
    (h : fileLog? workspace payload = some p) : ∃ s, p = workspace.child s := by
  unfold fileLog? at h
  split at h
  · exact ⟨"", (Option.some.inj h).symm⟩
  · split at h
    · exact nomatch h
    · exact ⟨_, (Option.some.inj h).symm⟩
  · exact nomatch h

/-- **An event log stays settled** from merge to merge. -/
theorem isSettled_eventLog (hgrounded : disk.Grounded)
    (hcwd : (FilePath.ofLocation disk.cwd).Descends) (hworkspace : workspace.Descends)
    (hc : ReachableOn disk workspace c) : ∀ p ∈ c.eventLog?, IsSettled disk p := by
  induction hc with
  | initial => exact fun p hp => nomatch hp
  | @merged base c payload o hwritten hbase hmerge ih =>
    have hverdict : Verdict _ _ (merge disk base payload o) := verdict_merge
    rw [hmerge] at hverdict
    have hmerged : Merged disk base payload o c := hverdict
    have hsame : base.workspace = workspace := (proper_of_reachable hbase.reachableFrom).1
    have hlog := hmerged.eventLog
    rw [hsame] at hlog
    cases hgiven : o.eventLog?.or (fileLog? workspace payload) with
    | none =>
      rw [hgiven] at hlog
      exact (show c.eventLog? = base.eventLog? from hlog) ▸ ih
    | some given =>
      rw [hgiven] at hlog
      obtain ⟨q, hq, hnew⟩ := hlog
      -- what is given comes from the command line or from the file
      have hsteps : ∀ part ∈ given.parts, IsStep part := by
        rcases Option.or_eq_some_iff.mp hgiven with hline | ⟨-, hfile⟩
        · exact (hwritten given hline).isStep
        · obtain ⟨s, rfl⟩ := eq_child_of_fileLog? hfile
          exact FilePath.isStep_child hworkspace.isStep s
      intro p hp
      rw [hnew] at hp
      obtain rfl := Option.some.inj hp
      exact isSettled_of_resolve hgrounded hcwd hsteps hq

end Disks

/-! ## What a snapshot says -/

section Snapshots

variable (c : Config)

/-- **A snapshot says of every setting what it is.** -/
theorem at?_toFields : ∀ f ∈ settings, f.at? c.toFields = some (f.value c) := by
  simp only [settings, List.forall_mem_cons]
  exact ⟨rfl, rfl, rfl, rfl, rfl, rfl, rfl, rfl, rfl, rfl, rfl, by simp⟩

/-- The snapshot writes the event log as a text, or as a null. -/
theorem at?_eventLogKey_toFields :
    eventLogKey.at? c.toFields = some (.ofText? (c.eventLog?.map FilePath.toString)) := rfl

/-- The snapshot writes its sections as tables. -/
theorem isTable_toFields : ∀ s ∈ sections, ∀ v, c.toFields.get? s = some v → v.isTable = true := by
  have htable : ∀ {fields : Value.Fields} {v : Value},
      some (Value.table fields) = some v → v.isTable = true := fun h => Option.some.inj h ▸ rfl
  simp only [sections, List.forall_mem_cons]
  exact ⟨fun _ => htable, fun _ => htable, fun _ => htable, fun _ => htable, fun _ => htable,
    fun _ => htable, by simp⟩

variable {c}

theorem Kind.not_accepts_null (k : Kind) : ¬ k.Accepts .null := fun h => nomatch h

/-- Every setting of a proper configuration is told its own value by the snapshot. -/
theorem told?_toFields (hproper : Proper c) : ∀ f ∈ settings, f.told? c.toFields = some (f.value c) := by
  intro f hf
  have hat := at?_toFields c f hf
  rw [Key.told?_eq_at?, hat]
  -- a setting that is acceptable is not null
  intro hnull
  have haccepts := hproper f hf
  rw [Option.some.inj (hat.symm.trans hnull)] at haccepts
  exact f.kind.not_accepts_null haccepts

/-- A rooted path has a spelling that is not empty. -/
theorem toString_ne_empty {p : FilePath} (h : p.anchor = .rooted) : p.toString ≠ "" := by
  intro heq
  have htext := FilePath.toList_toString_of_rooted h
  rw [heq] at htext
  exact nomatch htext

/-- **A snapshot is acceptable as a file.** -/
theorem accepts_toFields (hproper : Proper c) (hlog : ∀ p ∈ c.eventLog?, p.Descends) :
    ∀ k ∈ keys, ∀ v, k.told? c.toFields = some v → k.kind.Accepts v := by
  intro k hk v hv
  -- the settings are in order; the log is a path, whose spelling is not empty
  rcases List.mem_append.mp hk with hsetting | hlast
  · obtain ⟨f, hf, rfl⟩ := List.mem_map.mp hsetting
    rw [told?_toFields hproper f hf] at hv
    exact Option.some.inj hv ▸ hproper f hf
  · obtain rfl := List.mem_singleton.mp hlast
    have htold : eventLogKey.told? c.toFields =
        present? (.ofText? (c.eventLog?.map FilePath.toString)) := rfl
    rw [htold] at hv
    cases hp : c.eventLog? with
    | none =>
      rw [hp] at hv
      exact nomatch hv
    | some p =>
      rw [hp] at hv
      obtain rfl : Value.text p.toString = v := Option.some.inj hv
      exact .text (toString_ne_empty (hlog p hp).rooted)

/-- The event log of a snapshot; the workspace itself if there is none. -/
theorem fileLog?_toFields (workspace : FilePath) (hlog : ∀ p ∈ c.eventLog?, p.Descends) :
    fileLog? workspace c.toFields = some (c.eventLog?.getD workspace) := by
  unfold fileLog?
  rw [at?_eventLogKey_toFields]
  cases hp : c.eventLog? with
  | none => exact congrArg some (FilePath.child_empty workspace)
  | some p =>
    have hne : ¬ p.toString.isEmpty = true := fun hempty =>
      toString_ne_empty (hlog p hp).rooted (String.isEmpty_iff.mp hempty)
    show (if p.toString.isEmpty = true then none else some (workspace.child p.toString)) = some p
    rw [if_neg hne, (hlog p hp).child_toString]

/-! ## Merging a snapshot -/

/-- No setting is about the event log, and a command line that says nothing sets none. -/
theorem setting_eventLog (c : Config) (eventLog? : Option FilePath) :
    ∀ f ∈ settings, f.value { c with eventLog? := eventLog? } = f.value c ∧ f.given? .none = none := by
  simp [settings, Overrides.none, Overrides.time?, present?]

variable {disk : Disk} {given workspace : FilePath}

/-- A snapshot that is merged over the initial configuration gives every setting back, and an event
log, which is the workspace itself if there was none. -/
theorem merge_snapshot (hgrounded : disk.Grounded) (hcwd : (FilePath.ofLocation disk.cwd).Descends)
    (hgiven : given.IsWritten) (hresolved : disk.resolve given = .ok workspace)
    (hc : ReachableOn disk workspace c) : merge disk (initial workspace) c.toFields .none =
      .ok { c with eventLog? := some (c.eventLog?.getD workspace) } := by
  have hworkspace : IsSettled disk workspace :=
    isSettled_of_resolve hgrounded hcwd hgiven.isStep hresolved
  have hlog := isSettled_eventLog hgrounded hcwd hworkspace.descends hc
  have hdescends : ∀ p ∈ c.eventLog?, p.Descends := fun p hp => (hlog p hp).descends
  have hfile := fileLog?_toFields workspace hdescends
  obtain ⟨hsame, hproper⟩ := proper_of_reachable hc.reachableFrom
  have hstays : disk.resolve (c.eventLog?.getD workspace) = .ok (c.eventLog?.getD workspace) := by
    cases hp : c.eventLog? with
    | none => exact hworkspace.resolved
    | some p => exact (hlog p hp).resolved
  have htimed : Overrides.none.Valid := fun v hv => nomatch hv
  have hverdict : Verdict _ _ (merge disk (initial workspace) c.toFields .none) := verdict_merge
  cases hresult : merge disk (initial workspace) c.toFields .none with
  | error e =>
    rw [hresult] at hverdict
    refine absurd hverdict (not_blamed (isTable_toFields c) (accepts_toFields hproper hdescends)
      htimed ?_ e)
    intro p hp
    rw [pathsGiven, show (initial workspace).workspace = workspace from rfl, hfile] at hp
    exact ⟨_, List.mem_singleton.mp hp ▸ hstays⟩
  | ok c' =>
    rw [hresult] at hverdict
    have hmerged : Merged disk (initial workspace) c.toFields .none c' := hverdict
    -- the layers of a snapshot have its configuration on top
    have hlayered : Layered disk (initial workspace) c.toFields .none c' := by
      refine ⟨fun f hf => ?_, hmerged.eventLog, hmerged.workspace⟩
      rw [hmerged.settled f hf, told?_toFields hproper f hf, at?_toFields c f hf]
    refine congrArg Except.ok (hlayered.unique ⟨?settled, ?eventLog, hsame⟩)
    case settled =>
      intro f hf
      obtain ⟨hvalue, hgiven⟩ := setting_eventLog c (some (c.eventLog?.getD workspace)) f hf
      rw [hvalue, hgiven, at?_toFields c f hf]
      rfl
    case eventLog =>
      show ResolvesTo disk (fileLog? workspace c.toFields) none _
      rw [hfile]
      exact ⟨_, hstays, rfl⟩

/-- **A snapshot is always merged, and gives the configuration back exactly if it has an event
log**; all else is given back in any case. -/
theorem merge_toFields (hgrounded : disk.Grounded) (hcwd : (FilePath.ofLocation disk.cwd).Descends)
    (hgiven : given.IsWritten) (hresolved : disk.resolve given = .ok workspace)
    (hc : ReachableOn disk workspace c) :
    merge disk (initial workspace) c.toFields .none =
        .ok { c with eventLog? := some (c.eventLog?.getD workspace) } ∧
      (merge disk (initial workspace) c.toFields .none = .ok c ↔ c.eventLog?.isSome) := by
  have hmerge := merge_snapshot hgrounded hcwd hgiven hresolved hc
  refine ⟨hmerge, ?_⟩
  rw [hmerge, Except.ok.injEq]
  constructor
  · intro heq
    -- the merged configuration has an event log in any case
    rw [← heq]
    rfl
  · intro hsome
    obtain ⟨p, hp⟩ := Option.isSome_iff_exists.mp hsome
    rw [hp, Option.getD_some, ← hp]

end Snapshots

/-! ### A log that is set, and one that is not -/

/-- The workspace of the example, resolved. -/
theorem resolve_w : bareDisk.resolve (.ofString "/w") = .ok (.ofLocation ["w"]) := by
  have hplain : Disk.holdsNull "w" = false := by rw [Disk.holdsNull_eq]; decide
  have hwritten : FilePath.ofString "/w" = ⟨.rooted, ["w"]⟩ := by rfl
  rw [hwritten]
  simp [Disk.resolve, Disk.resolveFrom, hplain, bareDisk, Disk.entry?, Dictionary.get?,
    Disk.startOf]

theorem reachableOn_started : ReachableOn bareDisk (.ofLocation ["w"]) started :=
  .merged startersFile mappedLine (fun _ hp => nomatch hp) .initial merge_startersFile

theorem grounded_bareDisk : bareDisk.Grounded := Disk.isReal_nil

theorem descends_bareDisk : (FilePath.ofLocation bareDisk.cwd).Descends :=
  ⟨rfl, by simp [FilePath.ofLocation, bareDisk]⟩

theorem isWritten_w : (FilePath.ofString "/w").IsWritten := ⟨"/w", rfl⟩

theorem merge_toFields_withEventLog :
    bareDisk.Grounded ∧ (FilePath.ofLocation bareDisk.cwd).Descends ∧
      (FilePath.ofString "/w").IsWritten ∧
      bareDisk.resolve (.ofString "/w") = .ok (.ofLocation ["w"]) ∧
      ReachableOn bareDisk (.ofLocation ["w"]) started ∧
      merge bareDisk (initial (.ofLocation ["w"])) started.toFields .none = .ok started :=
  ⟨grounded_bareDisk, descends_bareDisk, isWritten_w, resolve_w, reachableOn_started,
    (merge_toFields grounded_bareDisk descends_bareDisk isWritten_w resolve_w
      reachableOn_started).2.mpr rfl⟩

/-- **A workspace that says nothing is not given back**: its events are logged to the workspace
itself. -/
theorem exists_unrestored :
    ReachableOn bareDisk (.ofLocation ["w"]) (initial (.ofLocation ["w"])) ∧
      merge bareDisk (initial (.ofLocation ["w"])) (initial (.ofLocation ["w"])).toFields .none =
        .ok { initial (.ofLocation ["w"]) with eventLog? := some (.ofLocation ["w"]) } ∧
      merge bareDisk (initial (.ofLocation ["w"])) (initial (.ofLocation ["w"])).toFields .none ≠
        .ok (initial (.ofLocation ["w"])) := by
  have hmerge := merge_snapshot grounded_bareDisk descends_bareDisk isWritten_w resolve_w .initial
  refine ⟨.initial, hmerge, ?_⟩
  rw [hmerge]
  intro heq
  exact nomatch congrArg Config.eventLog? (Except.ok.inj heq)

end Packwright.Config
