import Packwright.Proofs.Config.Precedence
import Packwright.Proofs.Dictionary

/-!
# Merges one after the other

Two files that are merged in turn, under the same command line, are as good as one file that says
what both of them say.

* `overlay lower upper` is that file: in each section the fields of both, those of the upper file
  counting where both have one.
* `merge_eq_ok_iff` says when a merge succeeds, and that the layers settle what it yields; what a
  file says goes through an overlay key by key (`at?_overlay`).
* `merge_overlay`: the merge of the overlay is the second of two merges, and a merge that is
  repeated changes nothing.
-/

namespace Packwright.Config

/-! ## Overlays -/

/-- A section put over one that may be there. -/
def overlaySection : Option Value → Value → Value
  | some (.table lower), .table upper => .table (Dictionary.overlay lower upper)
  | _, upper => upper

/-- A file put over another one, section by section. -/
def overlay (lower upper : Value.Fields) : Value.Fields :=
  Dictionary.overlay lower (upper.map fun (s, v) => (s, overlaySection (lower.get? s) v))

section Overlays

variable {lower upper : Value.Fields}

/-- A section of the overlay is the upper one laid over the lower one, or the lower one alone. -/
theorem get?_overlay (lower upper : Value.Fields) (s : String) :
    (overlay lower upper).get? s =
      ((upper.get? s).map (overlaySection (lower.get? s))).or (lower.get? s) := by
  unfold overlay
  rw [Dictionary.get?_overlay, Dictionary.get?_map fun s => overlaySection (lower.get? s)]

/-- A table laid over anything is a table. -/
theorem isTable_overlaySection (there? : Option Value) {v : Value} (hv : v.isTable = true) :
    (overlaySection there? v).isTable = true := by
  unfold overlaySection
  split
  · rfl
  · exact hv

/-- **What a file says goes through an overlay key by key**, as long as sections are tables. -/
theorem at?_overlay {k : Key}
    (hlower : ∀ v, lower.get? k.sectionName = some v → v.isTable = true)
    (hupper : ∀ v, upper.get? k.sectionName = some v → v.isTable = true) :
    k.at? (overlay lower upper) = (k.at? upper).or (k.at? lower) := by
  -- a section that is no table would hide the fields of the one below it
  have htable : ∀ {v : Value}, v.isTable = true → ∃ fields, v = .table fields := by
    intro v hv
    cases v with
    | table fields => exact ⟨fields, rfl⟩
    | _ => exact absurd hv Bool.false_ne_true
  unfold Key.at?
  rw [get?_overlay]
  cases hup : upper.get? k.sectionName with
  | none => rfl
  | some v =>
    obtain ⟨fields, rfl⟩ := htable (hupper v hup)
    cases hlow : lower.get? k.sectionName with
    | none => exact Option.or_none.symm
    | some w =>
      obtain ⟨old, rfl⟩ := htable (hlower w hlow)
      exact Dictionary.get?_overlay old fields k.name

theorem sectionName_mem {k : Key} (hk : k ∈ keys) : k.sectionName ∈ sections := by
  have hall : ∀ k ∈ keys, k.sectionName ∈ sections := by
    simp [keys, settings, eventLogKey, sections]
  exact hall k hk

theorem at?_overlay_of_valid (hlower : Valid lower) (hupper : Valid upper) {k : Key}
    (hk : k ∈ keys) : k.at? (overlay lower upper) = (k.at? upper).or (k.at? lower) :=
  at?_overlay (hlower.tables _ (sectionName_mem hk)) (hupper.tables _ (sectionName_mem hk))

theorem valid_overlay (hlower : Valid lower) (hupper : Valid upper) :
    Valid (overlay lower upper) := by
  constructor
  case tables =>
    intro s hs v hv
    rw [get?_overlay] at hv
    rcases Option.or_eq_some_iff.mp hv with hup | ⟨-, hlow⟩
    · obtain ⟨w, hw, rfl⟩ := Option.map_eq_some_iff.mp hup
      exact isTable_overlaySection _ (hupper.tables s hs w hw)
    · exact hlower.tables s hs v hlow
  case accepted =>
    intro k hk v hv
    rw [at?_overlay_of_valid hlower hupper hk] at hv
    rcases Option.or_eq_some_iff.mp hv with hup | ⟨-, hlow⟩
    · exact hupper.accepted k hk v hup
    · exact hlower.accepted k hk v hlow

/-- No null appears in the overlay of files without one. -/
theorem noNull_overlay (hlower : Valid lower) (hupper : Valid upper) (hlowerNull : NoNull lower)
    (hupperNull : NoNull upper) : NoNull (overlay lower upper) := by
  intro k hk hnull
  rw [at?_overlay_of_valid hlower hupper hk] at hnull
  rcases Option.or_eq_some_iff.mp hnull with hup | ⟨-, hlow⟩
  · exact hupperNull k hk hup
  · exact hlowerNull k hk hlow

/-- The event log is that of the upper file, if it says one. -/
theorem fileLog?_overlay (hlower : Valid lower) (hupper : Valid upper) (workspace : FilePath) :
    fileLog? workspace (overlay lower upper) =
      (fileLog? workspace upper).or (fileLog? workspace lower) := by
  have hkey : eventLogKey ∈ keys := List.mem_append_right _ (List.mem_singleton_self _)
  have hat := at?_overlay_of_valid hlower hupper hkey
  unfold fileLog?
  rw [hat]
  cases hup : eventLogKey.at? upper with
  | none => rfl
  | some v =>
    -- a log that is accepted is a path, so nothing below it counts
    cases hupper.accepted eventLogKey hkey v hup with
    | text hne =>
      have hpath : ¬ _ = true := fun hempty => hne (String.isEmpty_iff.mp hempty)
      simp [hpath]

end Overlays

/-! ## Merges -/

section Merges

variable {disk : Disk} {base c between : Config} {payload lower upper : Value.Fields}
  {o : Overrides}

/-- **A merge succeeds exactly if all that is said is acceptable**, and yields the one
configuration of its layers. -/
theorem merge_eq_ok_iff (hnull : NoNull payload) :
    merge disk base payload o = .ok c ↔
      (Valid payload ∧ o.Valid ∧ Resolvable disk base.workspace payload o) ∧
        Layered disk base payload o c := by
  have hverdict : Verdict _ _ (merge disk base payload o) := verdict_merge
  have hvalid := valid_iff hnull
  cases hmerge : merge disk base payload o with
  | ok c' =>
    rw [hmerge] at hverdict
    have hmerged : Merged disk base payload o c' := hverdict
    constructor
    · intro h
      rw [← Except.ok.inj h]
      exact ⟨⟨hvalid.mpr ⟨hmerged.tables, hmerged.accepted⟩, hmerged.timed, hmerged.resolvable⟩,
        hmerged.layered hnull⟩
    · rintro ⟨-, hlayered⟩
      rw [(hmerged.layered hnull).unique hlayered]
  | error e =>
    rw [hmerge] at hverdict
    constructor
    · exact fun h => nomatch h
    · rintro ⟨⟨hgood, htimed, hpaths⟩, -⟩
      -- nothing that the conditions exclude is left for the error to blame
      obtain ⟨htables, haccepted⟩ := hvalid.mp hgood
      exact absurd hverdict (not_blamed htables haccepted htimed hpaths e)

/-- The paths of an overlay are among those of its files. -/
theorem resolvable_overlay {workspace : FilePath} (hlower : Valid lower) (hupper : Valid upper)
    (hlowerPaths : Resolvable disk workspace lower o)
    (hupperPaths : Resolvable disk workspace upper o) :
    Resolvable disk workspace (overlay lower upper) o := by
  intro p hp
  unfold pathsGiven at hp
  rw [fileLog?_overlay hlower hupper] at hp
  rcases List.mem_append.mp hp with hfile | hline
  · rcases Option.or_eq_some_iff.mp (Option.mem_toList.mp hfile) with hup | ⟨-, hlow⟩
    · exact hupperPaths p (List.mem_append_left _ (Option.mem_toList.mpr hup))
    · exact hlowerPaths p (List.mem_append_left _ (Option.mem_toList.mpr hlow))
  · exact hupperPaths p (List.mem_append_right _ hline)

/-- What the command line says wins over both files, so it does not matter that it is asked twice. -/
theorem or_or_distrib_left {α : Type} (line? upper? lower? : Option α) :
    (line?.or upper?).or (line?.or lower?) = line?.or (upper?.or lower?) := by
  cases line? <;> rfl

/-- **Layers on layers are the layers of an overlay.** -/
theorem Layered.overlay (hlower : Valid lower) (hupper : Valid upper)
    (hfirst : Layered disk base lower o between) (hsecond : Layered disk between upper o c) :
    Layered disk base (overlay lower upper) o c := by
  constructor
  case settled =>
    intro f hf
    have hkey : f.toKey ∈ keys := List.mem_append_left _ (List.mem_map_of_mem hf)
    -- both stages ask the command line first, then each its own file
    rw [hsecond.settled f hf, hfirst.settled f hf, at?_overlay_of_valid hlower hupper hkey,
      ← or_or_distrib_left]
    cases (f.given? o).or (f.at? upper) <;> rfl
  case eventLog =>
    have hbetween := hsecond.eventLog
    rw [hfirst.workspace] at hbetween
    rw [fileLog?_overlay hlower hupper, ← or_or_distrib_left]
    exact hfirst.eventLog.or hbetween
  case workspace => exact hsecond.workspace.trans hfirst.workspace

/-- Layers that have been put on can be put on again. -/
theorem Layered.again (h : Layered disk base payload o c) : Layered disk c payload o c := by
  constructor
  case settled =>
    intro f hf
    have hsettled := h.settled f hf
    cases hsaid : (f.given? o).or (f.at? payload) with
    | none => rfl
    | some v =>
      -- a field that the file settles is settled the same way again
      rw [hsaid] at hsettled
      exact hsettled
  case eventLog =>
    have hlog := h.eventLog
    rw [h.workspace]
    cases hsaid : o.eventLog?.or (fileLog? base.workspace payload) with
    | none => exact rfl
    | some p =>
      rw [hsaid] at hlog
      exact hlog
  case workspace => rfl

/-- **Two merges are the merge of the overlay**, and a merge that is repeated changes nothing. -/
theorem merge_overlay (hlowerNull : NoNull lower) (hupperNull : NoNull upper)
    (hfirst : merge disk base lower o = .ok between)
    (hsecond : merge disk between upper o = .ok c) :
    merge disk base (overlay lower upper) o = .ok c ∧
      merge disk between lower o = .ok between := by
  obtain ⟨⟨hlower, htimed, hlowerPaths⟩, hlayered⟩ := (merge_eq_ok_iff hlowerNull).mp hfirst
  obtain ⟨⟨hupper, -, hupperPaths⟩, hlayered'⟩ := (merge_eq_ok_iff hupperNull).mp hsecond
  constructor
  · -- both files are read against the same workspace
    rw [hlayered.workspace] at hupperPaths
    exact (merge_eq_ok_iff (noNull_overlay hlower hupper hlowerNull hupperNull)).mpr
      ⟨⟨valid_overlay hlower hupper, htimed,
        resolvable_overlay hlower hupper hlowerPaths hupperPaths⟩,
        hlayered.overlay hlower hupper hlayered'⟩
  · refine (merge_eq_ok_iff hlowerNull).mpr ⟨⟨hlower, htimed, ?_⟩, hlayered.again⟩
    rw [hlayered.workspace]
    exact hlowerPaths

end Merges

/-! ### Two files about the engines -/

/-- A file that names both engines and a log. -/
def startersFile : Value.Fields :=
  [("engines", .table [("compiler", .texts ["tsc"]), ("bundler", .texts ["esbuild"])]),
   ("log", .table [("event_log", .text "events")])]

/-- A file that names another bundler, and says how long changes are collected. -/
def rollupFile : Value.Fields :=
  [("engines", .table [("bundler", .texts ["rollup"])]),
   ("watch", .table [("debounce_ms", .int 250)])]

def mappedLine : Overrides := ⟨some true, none, .null, none⟩

/-- What the first file makes of a workspace. -/
def started : Config :=
  { initial (.ofLocation ["w"]) with
    outputs := ⟨true, true⟩
    engines := ⟨["tsc"], ["esbuild"]⟩
    eventLog? := some (.ofLocation ["w", "events"]) }

/-- The event log of the example, resolved. -/
theorem resolve_events : bareDisk.resolve ((FilePath.ofLocation ["w"]).child "events") =
    .ok (.ofLocation ["w", "events"]) := by
  have hplain : ∀ name ∈ ["w", "events"], Disk.holdsNull name = false := by
    simp only [Disk.holdsNull_eq]
    decide
  have hchild : (FilePath.ofLocation ["w"]).child "events" = ⟨.rooted, ["w", "events"]⟩ := by rfl
  rw [hchild]
  simp [Disk.resolve, Disk.resolveFrom, hplain, bareDisk, Disk.entry?, Dictionary.get?,
    Disk.startOf]

/-- The first file of the example, merged. -/
theorem merge_startersFile :
    merge bareDisk (initial (.ofLocation ["w"])) startersFile mappedLine = .ok started := by
  have hread : readText "log.event_log" (.text "events") "" = .ok "events" := by rfl
  have hlog : mergeEventLog bareDisk (.ofLocation ["w"]) none [("event_log", .text "events")] =
      .ok (some (.ofLocation ["w", "events"])) := by
    show (readText "log.event_log" (.text "events") "" >>= fun path =>
      (absolute bareDisk ((FilePath.ofLocation ["w"]).child path)).map some) = _
    rw [hread]
    show (absolute bareDisk ((FilePath.ofLocation ["w"]).child "events")).map some = _
    rw [absolute, resolve_events]
    rfl
  -- the log is all that has to do with the disk
  unfold merge
  show (mergeEventLog bareDisk (.ofLocation ["w"]) none [("event_log", .text "events")] >>= _) = _
  rw [hlog]
  rfl

/-- Two files that each name one engine: merged one after the other, and merged as one. -/
theorem merge_overlay_engines :
    NoNull startersFile ∧ NoNull rollupFile ∧
      merge bareDisk (initial (.ofLocation ["w"])) startersFile mappedLine = .ok started ∧
      merge bareDisk started rollupFile mappedLine =
        .ok { started with engines := ⟨["tsc"], ["rollup"]⟩, debounceMs := 250 } ∧
      merge bareDisk (initial (.ofLocation ["w"])) (overlay startersFile rollupFile) mappedLine =
        .ok { started with engines := ⟨["tsc"], ["rollup"]⟩, debounceMs := 250 } ∧
      merge bareDisk started startersFile mappedLine = .ok started := by
  have hstarters : NoNull startersFile := by
    unfold NoNull
    simp [keys, settings, eventLogKey, Key.at?, startersFile, Dictionary.get?, Value.field?,
      Value.texts]
  have hrollup : NoNull rollupFile := by
    unfold NoNull
    simp [keys, settings, eventLogKey, Key.at?, rollupFile, Dictionary.get?, Value.field?,
      Value.texts]
  have hsecond : merge bareDisk started rollupFile mappedLine =
      .ok { started with engines := ⟨["tsc"], ["rollup"]⟩, debounceMs := 250 } := by rfl
  exact ⟨hstarters, hrollup, merge_startersFile, hsecond,
    merge_overlay hstarters hrollup merge_startersFile hsecond⟩

end Packwright.Config
