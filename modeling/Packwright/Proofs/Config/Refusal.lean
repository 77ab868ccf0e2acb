import Mathlib
import Packwright.Proofs.Config.Composition
import Packwright.Proofs.Traversal
import Packwright.Rehearsal.Program

/-!
# Configurations that cannot be used

What the program says when its configuration cannot be loaded. A value that is wrong is explained in
one line, and the status is 2. Other failures to load are not explained.

* `LogLost` says when the path of the event log comes before any wrong value. It is all that a merge
  fails for apart from wrong values (`merge_path_iff`); `Spurns` is what the readers of one section
  fail for.
* `Judged` says when it comes to values at all, and nothing else is in the way (`load_judged_iff`).
* `explains_runProgram` leads from loading to the ending of the program.
-/

namespace Packwright.Config

open Packwright.Traversal

/-! ## Which comes first: a path or a value -/

section Merge

variable (disk : Disk) (base : Config) (payload : Value.Fields) (o : Overrides)

/-- The sections that are read before the event log is looked for, and its own. -/
def readFirst : List String :=
  ["build", "compiler", "engines", "log"]

/-- Whether the path of an event log is looked for, and cannot be made absolute: that in the file
before the last sections are read, that on the command line when everything else has been
accepted. -/
inductive LogLost : Prop
  | inFile {p : FilePath} {cause : Disk.ResolveError}
      (tables : ∀ s ∈ sections, ∀ v, payload.get? s = some v → v.isTable = true)
      (accepted : ∀ k ∈ keys, k.sectionName ∈ readFirst →
        ∀ v, k.told? payload = some v → k.kind.Accepts v)
      (said : fileLog? base.workspace payload = some p) (lost : disk.resolve p = .error cause)
  | onLine {p : FilePath} {cause : Disk.ResolveError}
      (tables : ∀ s ∈ sections, ∀ v, payload.get? s = some v → v.isTable = true)
      (accepted : ∀ k ∈ keys, ∀ v, k.told? payload = some v → k.kind.Accepts v) (timed : o.Valid)
      (found : ∀ q, fileLog? base.workspace payload = some q → ∃ r, disk.resolve q = .ok r)
      (said : o.eventLog? = some p) (lost : disk.resolve p = .error cause)

/-- Whether an error is about a path exactly if the path of an event log is lost. -/
def Fair (e : MergeError) : Prop :=
  (∃ cause, e = .path cause) ↔ LogLost disk base payload o

variable {disk base payload o}

/-- When the log is lost, all sections have been read as tables. -/
theorem LogLost.tables (h : LogLost disk base payload o) :
    ∀ s ∈ sections, ∀ v, payload.get? s = some v → v.isTable = true := by
  cases h with
  | inFile tables => exact tables
  | onLine tables => exact tables

theorem LogLost.accepted (h : LogLost disk base payload o) :
    ∀ k ∈ keys, k.sectionName ∈ readFirst → ∀ v, k.told? payload = some v → k.kind.Accepts v := by
  cases h with
  | inFile _ accepted => exact accepted
  | onLine _ accepted => exact fun k hk _ => accepted k hk

/-- An error about a value is fair if no path is lost. -/
theorem fair_value {cause : Error} (h : ¬ LogLost disk base payload o) :
    Fair disk base payload o (.value cause) :=
  ⟨fun ⟨_, heq⟩ => (nomatch heq), fun hlost => absurd hlost h⟩

/-- Blaming a path is fair when the log is lost. -/
theorem fair_path {cause : Disk.ResolveError} (h : LogLost disk base payload o) :
    Fair disk base payload o (.path cause) :=
  ⟨fun _ => h, fun _ => ⟨cause, rfl⟩⟩

/-! ## The readers of a section -/

/-- A failure on account of a value in a section. -/
def Spurns (payload : Value.Fields) (s : String) (e : MergeError) : Prop :=
  ∃ k ∈ keys, k.sectionName = s ∧ ∃ cause v, e = .value cause ∧ k.told? payload = some v ∧
    ¬ k.kind.Accepts v

/-- Whether all that a file says in a section is accepted. -/
def Approves (payload : Value.Fields) (s : String) : Prop :=
  ∀ k ∈ keys, k.sectionName = s → ∀ v, k.told? payload = some v → k.kind.Accepts v

/-- A reader that is given what a file says under a key fails on account of its section. -/
theorem Verdict.spurns {α : Type} {there? : Option Value} {old : Value} {written : α → Value}
    {x : Except MergeError α} {k : Key}
    (hread : Verdict (Rejects k.kind k.path there?)
      (fun new => Takes k.kind there? old (written new)) x)
    (hk : k ∈ keys) (hthere : there? = k.told? payload) :
    Verdict (Spurns payload k.sectionName)
      (fun _ => ∀ v, k.told? payload = some v → k.kind.Accepts v) x := by
  rw [hthere] at hread
  refine hread.mono (fun e he => ?_) fun _ hnew => hnew.1
  obtain ⟨cause, v, rfl, -, hv, hnot⟩ := he
  exact ⟨k, hk, rfl, cause, v, rfl, hv, hnot⟩

/-- The outputs blame only their own section, and only for what it holds. -/
theorem spurns_mergeOutputs {fields : Value.Fields} (h : HoldsSection payload "build" fields)
    (old : OutputChoice) :
    Verdict (Spurns payload "build") (fun _ => Approves payload "build") (mergeOutputs old fields) := by
  unfold mergeOutputs
  refine ((verdict_readBool _ _ _).spurns (k := ⟨"build", "source_map", .truth⟩)
    (by simp [keys, settings]) (h.present?_fieldOf (by decide))).bind fun _ hmaps => ?_
  refine ((verdict_readBool _ _ _).spurns (k := ⟨"build", "pure_annotations", .truth⟩)
    (by simp [keys, settings]) (h.present?_fieldOf (by decide))).bind fun _ hpure => ?_
  simpa [Approves, keys, settings, eventLogKey] using ⟨hmaps, hpure⟩

/-- So does the language. -/
theorem spurns_mergeLanguage {fields : Value.Fields} (h : HoldsSection payload "compiler" fields)
    (old : LanguageLevel) :
    Verdict (Spurns payload "compiler") (fun _ => Approves payload "compiler")
      (mergeLanguage old fields) := by
  unfold mergeLanguage
  refine ((verdict_readTexts _ _ _).spurns (k := ⟨"compiler", "lib", .texts⟩)
    (by simp [keys, settings]) (h.get? rfl)).bind fun _ hlib => ?_
  refine ((verdict_readTexts _ _ _).spurns (k := ⟨"compiler", "types", .texts⟩)
    (by simp [keys, settings]) (h.get? rfl)).bind fun _ htypes => ?_
  refine ((verdict_readText _ _ _).spurns (k := ⟨"compiler", "target", .text⟩)
    (by simp [keys, settings]) (h.present?_fieldOf (by decide))).bind fun _ htarget => ?_
  refine ((verdict_readText _ _ _).spurns (k := ⟨"compiler", "module", .text⟩)
    (by simp [keys, settings]) (h.present?_fieldOf (by decide))).bind fun _ hmodule => ?_
  refine ((verdict_readBool _ _ _).spurns (k := ⟨"compiler", "strict", .truth⟩)
    (by simp [keys, settings]) (h.present?_fieldOf (by decide))).bind fun _ hstrict => ?_
  simpa [Approves, keys, settings, eventLogKey] using ⟨htarget, hmodule, hlib, htypes, hstrict⟩

/-- And so do the engines. -/
theorem spurns_mergeEngines {fields : Value.Fields} (h : HoldsSection payload "engines" fields)
    (old : EngineCommands) :
    Verdict (Spurns payload "engines") (fun _ => Approves payload "engines")
      (mergeEngines old fields) := by
  unfold mergeEngines
  refine ((verdict_readTexts _ _ _).spurns (k := ⟨"engines", "compiler", .texts⟩)
    (by simp [keys, settings]) (h.get? rfl)).bind fun _ hcompiler => ?_
  refine ((verdict_readTexts _ _ _).spurns (k := ⟨"engines", "bundler", .texts⟩)
    (by simp [keys, settings]) (h.get? rfl)).bind fun _ hbundler => ?_
  simpa [Approves, keys, settings, eventLogKey] using ⟨hcompiler, hbundler⟩

/-- A value that is wrong in one of the first sections comes before any path. -/
theorem Spurns.fair {s : String} {e : MergeError} (h : Spurns payload s e) (hs : s ∈ readFirst) :
    Fair disk base payload o e := by
  obtain ⟨k, hk, rfl, cause, v, rfl, hv, hnot⟩ := h
  exact fair_value fun hlost => hnot (hlost.accepted k hk hs v hv)

/-- A value that is wrong elsewhere comes before the path on the command line; that in the file has
been found by then. -/
theorem Spurns.fair_of_found {s : String} {e : MergeError} (h : Spurns payload s e)
    (hfound : ∀ q, fileLog? base.workspace payload = some q → ∃ r, disk.resolve q = .ok r) :
    Fair disk base payload o e := by
  obtain ⟨k, hk, -, cause, v, rfl, hv, hnot⟩ := h
  refine fair_value fun hlost => ?_
  cases hlost with
  | inFile _ _ said lost =>
    obtain ⟨r, hr⟩ := hfound _ said
    rw [hr] at lost
    exact nomatch lost
  | onLine _ accepted => exact hnot (accepted k hk v hv)

/-- A section that is no table is blamed before any path is resolved. -/
theorem fair_sectionOf {s : String} (hs : s ∈ sections) :
    Verdict (Fair disk base payload o)
      (fun fields => (∀ v, payload.get? s = some v → v.isTable = true) ∧
        HoldsSection payload s fields)
      (sectionOf payload s) := by
  refine (verdict_section payload s).mono ?_ fun _ h => h
  rintro _ ⟨rfl, v, hv, hnot⟩
  exact fair_value fun hlost => absurd ((hlost.tables s hs v hv).symm.trans hnot) (by simp)

/-- Where the event log of a file leads to, if it says one and the path can be made absolute. -/
theorem fair_mergeEventLog {fields : Value.Fields}
    (tables : ∀ s ∈ sections, ∀ v, payload.get? s = some v → v.isTable = true)
    (hbefore : ∀ s ∈ readFirst, s ≠ "log" → Approves payload s)
    (h : HoldsSection payload "log" fields) :
    Verdict (Fair disk base payload o)
      (fun _ => Approves payload "log" ∧
        ∀ q, fileLog? base.workspace payload = some q → ∃ r, disk.resolve q = .ok r)
      (mergeEventLog disk base.workspace base.eventLog? fields) := by
  have hat : fields.get? "event_log" = eventLogKey.at? payload := h "event_log"
  have htold : eventLogKey.told? payload = (eventLogKey.at? payload).bind present? := rfl
  have hlog : (∀ v, eventLogKey.told? payload = some v → Kind.text.Accepts v) →
      Approves payload "log" := by
    intro haccepted
    simpa [Approves, keys, settings, eventLogKey] using haccepted
  unfold mergeEventLog
  rw [hat]
  cases hv : eventLogKey.at? payload with
  | none =>
    have hnone : fileLog? base.workspace payload = none := by
      unfold fileLog?
      rw [hv]
    refine ⟨hlog fun v hsaid => ?_, fun q hq => ?_⟩
    · rw [htold, hv] at hsaid
      cases hsaid
    · rw [hnone] at hq
      cases hq
  | some v =>
    have hthere : present? v = eventLogKey.told? payload := by rw [htold, hv, Option.bind_some]
    have hread : Verdict (Fair disk base payload o)
        (fun path => Takes .text (present? v) (.text "") (.text path))
        (readText "log.event_log" v "") := by
      refine (verdict_readText _ v "").mono (fun e he => ?_) fun _ hnew => hnew
      obtain ⟨cause, w, rfl, -, hw, hnot⟩ := he
      have hspurned : Spurns payload "log" (.value cause) :=
        ⟨eventLogKey, by simp [keys], rfl, cause, w, rfl, hthere ▸ hw, hnot⟩
      exact hspurned.fair (by decide)
    refine hread.bind fun path hpath => ?_
    have hsaid : fileLog? base.workspace payload = some (base.workspace.child path) :=
      fileLog?_of_takes hv hpath
    have hlast : Approves payload "log" := hlog fun w hw => hpath.1 w (hthere ▸ hw)
    -- what was read before the section of the log is approved, and so is the log itself by now
    unfold absolute
    cases hresolve : disk.resolve (base.workspace.child path) with
    | error cause =>
      refine fair_path (.inFile tables (fun k hk hfirst => ?_) hsaid hresolve)
      by_cases hs : k.sectionName = "log"
      · exact hlast k hk hs
      · exact hbefore _ hfirst hs k hk rfl
    | ok r =>
      refine ⟨hlast, fun q hq => ?_⟩
      rw [← Option.some.inj (hsaid.symm.trans hq)]
      exact ⟨r, hresolve⟩

/-- The command line comes last, so when it blames a path, the log is lost there. -/
theorem fair_override (m : Config)
    (tables : ∀ s ∈ sections, ∀ v, payload.get? s = some v → v.isTable = true)
    (accepted : ∀ k ∈ keys, ∀ v, k.told? payload = some v → k.kind.Accepts v)
    (found : ∀ q, fileLog? base.workspace payload = some q → ∃ r, disk.resolve q = .ok r) :
    Verdict (Fair disk base payload o) (fun _ => True) (override disk m o) := by
  have hread : Verdict (Fair disk base payload o)
      (fun new : Nat => Takes .time o.time? (.int m.debounceMs) (.int new))
      (readDebounce "overrides.debounce_ms" o.debounceMs m.debounceMs) := by
    refine (verdict_readDebounce _ _ _).mono (fun e he => ?_) fun _ hnew => hnew
    obtain ⟨cause, v, rfl, -, hv, hnot⟩ := he
    refine fair_value fun hlost => ?_
    -- the path in the file was found, so only the one on the line can be lost
    cases hlost with
    | inFile _ _ said lost =>
      obtain ⟨r, hr⟩ := found _ said
      rw [hr] at lost
      exact nomatch lost
    | onLine _ _ timed => exact hnot (timed v hv)
  unfold override
  refine hread.bind fun debounceMs htime => ?_
  dsimp only
  cases hsaid : o.eventLog? with
  | none => trivial
  | some p =>
    dsimp only
    unfold absolute
    cases hresolve : disk.resolve p with
    | error cause => exact fair_path (.onLine tables accepted htime.1 found hsaid hresolve)
    | ok r => trivial

/-! ## The merge -/

/-- **A merge fails for a path exactly if that of an event log is lost**; whatever else it fails for
is a wrong value. -/
theorem fair_merge : Verdict (Fair disk base payload o) (fun _ => True) (merge disk base payload o) := by
  unfold merge
  refine (fair_sectionOf (s := "build") (by decide)).bind fun build hbuild => ?_
  refine (fair_sectionOf (s := "compiler") (by decide)).bind fun compiler hcompiler => ?_
  refine (fair_sectionOf (s := "docs") (by decide)).bind fun docs hdocs => ?_
  refine (fair_sectionOf (s := "watch") (by decide)).bind fun watch hwatch => ?_
  refine (fair_sectionOf (s := "engines") (by decide)).bind fun engines hengines => ?_
  refine (fair_sectionOf (s := "log") (by decide)).bind fun log hlog => ?_
  have htables : ∀ s ∈ sections, ∀ v, payload.get? s = some v → v.isTable = true := by
    simp only [sections, List.forall_mem_cons]
    exact ⟨hbuild.1, hcompiler.1, hdocs.1, hwatch.1, hengines.1, hlog.1, by simp⟩
  refine ((spurns_mergeOutputs hbuild.2 _).mono (fun e he => he.fair (by decide))
    fun _ ha => ha).bind fun outputs houtputs => ?_
  refine ((spurns_mergeLanguage hcompiler.2 _).mono (fun e he => he.fair (by decide))
    fun _ ha => ha).bind fun language hlanguage => ?_
  refine ((spurns_mergeEngines hengines.2 _).mono (fun e he => he.fair (by decide))
    fun _ ha => ha).bind fun commands hcommands => ?_
  have hfirst : ∀ s ∈ readFirst, s ≠ "log" → Approves payload s := by
    simp only [readFirst, List.forall_mem_cons]
    exact ⟨fun _ => houtputs, fun _ => hlanguage, fun _ => hcommands, fun h => absurd rfl h, by simp⟩
  -- the event log of the file is looked for before the last sections are read
  refine (fair_mergeEventLog htables hfirst hlog.2).bind fun eventLog? hfound => ?_
  refine (((verdict_readText _ _ _).spurns (k := ⟨"docs", "base_url", .text⟩)
    (by simp [keys, settings]) (hdocs.2.present?_fieldOf (by decide))).mono
    (fun e he => he.fair_of_found hfound.2) fun _ ha => ha).bind fun baseUrl hbaseUrl => ?_
  refine (((verdict_readDebounce _ _ _).spurns (k := ⟨"watch", "debounce_ms", .time⟩)
    (by simp [keys, settings]) (hwatch.2.present?_fieldOf (by decide))).mono
    (fun e he => he.fair_of_found hfound.2) fun _ ha => ha).bind fun debounceMs hdebounce => ?_
  have hdocs' : Approves payload "docs" := by
    simpa [Approves, keys, settings, eventLogKey] using hbaseUrl
  have hwatch' : Approves payload "watch" := by
    simpa [Approves, keys, settings, eventLogKey] using hdebounce
  refine fair_override _ htables (fun k hk => ?_) hfound.2
  have hall : ∀ s ∈ sections, Approves payload s := by
    simp only [sections, List.forall_mem_cons]
    exact ⟨houtputs, hlanguage, hdocs', hwatch', hcommands, hfound.1, by simp⟩
  exact hall _ (sectionName_mem hk) k hk rfl

/-- **A merge blames a path exactly if the log is lost.** -/
theorem merge_path_iff :
    (∃ cause, merge disk base payload o = .error (.path cause)) ↔ LogLost disk base payload o := by
  have hfair : Verdict _ _ (merge disk base payload o) := fair_merge
  have hverdict : Verdict _ _ (merge disk base payload o) := verdict_merge
  constructor
  · rintro ⟨cause, herror⟩
    rw [herror] at hfair
    exact (show Fair disk base payload o (.path cause) from hfair).mp ⟨cause, rfl⟩
  · intro hlost
    cases hmerge : merge disk base payload o with
    | error e =>
      rw [hmerge] at hfair
      obtain ⟨cause, rfl⟩ := (show Fair disk base payload o e from hfair).mpr hlost
      exact ⟨cause, rfl⟩
    | ok c =>
      -- where a merge succeeds, all paths have been found
      rw [hmerge] at hverdict
      have hpaths : Resolvable disk base.workspace payload o := Merged.resolvable hverdict
      have hfound : ∀ p, p ∈ pathsGiven base.workspace payload o →
          ∀ cause, disk.resolve p ≠ .error cause := by
        intro p hp cause hcause
        obtain ⟨q, hq⟩ := hpaths p hp
        rw [hq] at hcause
        exact nomatch hcause
      cases hlost with
      | inFile _ _ said lost => exact absurd lost (hfound _ (by simp [pathsGiven, said]) _)
      | onLine _ _ _ _ said lost => exact absurd lost (hfound _ (by simp [pathsGiven, said]) _)

end Merge

/-! ## Loading -/

/-- What the configuration file of a workspace says: nothing if there is none, else what its bytes
spell. -/
inductive FileSays (disk : Disk) (workspace : FilePath) : Value.Fields → Prop
  | nothing (absent : disk.pathExists (workspace.child fileName) = false) :
      FileSays disk workspace []
  | document {bytes : List UInt8} {text : List Char} {payload : Value.Fields}
      (present : disk.pathExists (workspace.child fileName) = true)
      (held : disk.read (workspace.child fileName) = .ok bytes)
      (spelt : Text.Utf8.decodeChars bytes = .ok text) (parsed : Toml.read text = .ok payload) :
      FileSays disk workspace payload

/-- What the file says, by an `iff`: nothing if it is not there, and otherwise its decoded and
parsed bytes. -/
theorem readFile_eq_ok_iff {disk : Disk} {workspace : FilePath} {payload : Value.Fields} :
    readFile disk workspace = .ok payload ↔ FileSays disk workspace payload := by
  unfold readFile
  dsimp only
  split
  · rename_i hthere
    constructor
    · intro h
      obtain ⟨bytes, hbytes, h⟩ := bind_eq_ok_iff.mp h
      obtain ⟨text, htext, h⟩ := bind_eq_ok_iff.mp h
      exact .document hthere (mapError_eq_ok_iff.mp hbytes) (mapError_eq_ok_iff.mp htext)
        (mapError_eq_ok_iff.mp h)
    · rintro (habsent | ⟨-, hbytes, htext, hparsed⟩)
      · rw [hthere] at habsent
        exact nomatch habsent
      · exact bind_eq_ok_iff.mpr ⟨_, mapError_eq_ok_iff.mpr hbytes, bind_eq_ok_iff.mpr
          ⟨_, mapError_eq_ok_iff.mpr htext, mapError_eq_ok_iff.mpr hparsed⟩⟩
  · rename_i habsent
    constructor
    · intro h
      obtain rfl := Except.ok.inj h
      exact .nothing (by simpa using habsent)
    · rintro (- | ⟨hthere, -⟩)
      · rfl
      · exact absurd hthere habsent

/-- A file that cannot be read has nothing to do with a merge. -/
theorem readFile_ne_merge {disk : Disk} {workspace : FilePath} (cause : MergeError) :
    readFile disk workspace ≠ .error (.merge cause) := by
  unfold readFile
  dsimp only
  -- each step of the reading renames its error to one of its own
  split
  · cases disk.read (workspace.child fileName) with
    | error e => exact fun h => nomatch Except.error.inj h
    | ok bytes =>
      show ((Text.Utf8.decodeChars bytes).mapError LoadError.undecodable >>= _) ≠ _
      cases Text.Utf8.decodeChars bytes with
      | error e => exact fun h => nomatch Except.error.inj h
      | ok text =>
        show (Toml.read text).mapError LoadError.document ≠ _
        cases Toml.read text with
        | error e => exact fun h => nomatch Except.error.inj h
        | ok payload => exact fun h => nomatch h
  · exact fun h => nomatch h

/-- Whether it comes to the values of a configuration, and they are all that is in the way: the
workspace is found, its file can be read, and the path of no event log is lost. -/
def Judged (disk : Disk) (workspace : FilePath) (o : Overrides) : Prop :=
  ∃ w payload, disk.resolve workspace = .ok w ∧ FileSays disk w payload ∧
    ¬ LogLost disk (initial w) payload o

/-- What loading comes to when the workspace is found and its file can be read. -/
theorem load_eq_merge {disk : Disk} {workspace w : FilePath} {payload : Value.Fields} {o : Overrides}
    (hw : disk.resolve workspace = .ok w) (hpayload : FileSays disk w payload) :
    load disk workspace o = (merge disk (initial w) payload o).mapError .merge := by
  unfold load
  rw [hw]
  show (readFile disk w >>= _) = _
  rw [readFile_eq_ok_iff.mpr hpayload]
  rfl

/-- Where a value is refused, it has come to a merge. -/
theorem exists_merge_of_load {disk : Disk} {workspace : FilePath} {o : Overrides} {cause : Error}
    (h : load disk workspace o = .error (.merge (.value cause))) :
    ∃ w payload, disk.resolve workspace = .ok w ∧ FileSays disk w payload ∧
      merge disk (initial w) payload o = .error (.value cause) := by
  cases hw : disk.resolve workspace with
  | error e =>
    unfold load at h
    rw [hw] at h
    exact absurd (Except.error.inj h) (by simp)
  | ok w =>
    -- what goes wrong before the merge has another error than a wrong value
    cases hread : readFile disk w with
    | error e =>
      unfold load at h
      rw [hw] at h
      have hfails : (readFile disk w >>= fun payload =>
          (merge disk (initial w) payload o).mapError .merge) = .error (.merge (.value cause)) := h
      rw [hread] at hfails
      obtain rfl : e = .merge (.value cause) := Except.error.inj hfails
      exact absurd hread (readFile_ne_merge _)
    | ok payload =>
      have hpayload := readFile_eq_ok_iff.mp hread
      refine ⟨w, payload, rfl, hpayload, ?_⟩
      rw [load_eq_merge hw hpayload] at h
      cases hmerge : merge disk (initial w) payload o with
      | ok c =>
        rw [hmerge] at h
        exact nomatch h
      | error e =>
        rw [hmerge] at h
        rw [LoadError.merge.inj (Except.error.inj h)]

/-- **A configuration is loaded, or refused for a wrong value, exactly if nothing else is in the
way.** -/
theorem load_judged_iff (disk : Disk) (workspace : FilePath) (o : Overrides) :
    ((∃ c, load disk workspace o = .ok c) ∨
        ∃ cause, load disk workspace o = .error (.merge (.value cause))) ↔
      Judged disk workspace o := by
  constructor
  · rintro (⟨c, hc⟩ | ⟨cause, hcause⟩)
    · obtain ⟨w, hw, hc⟩ := bind_eq_ok_iff.mp hc
      obtain ⟨payload, hpayload, hc⟩ := bind_eq_ok_iff.mp hc
      -- a configuration that was loaded has not lost its log
      refine ⟨w, payload, mapError_eq_ok_iff.mp hw, readFile_eq_ok_iff.mp hpayload, fun hlost => ?_⟩
      obtain ⟨cause, hcause⟩ := merge_path_iff.mpr hlost
      rw [hcause] at hc
      exact nomatch hc
    · obtain ⟨w, payload, hw, hpayload, hmerge⟩ := exists_merge_of_load hcause
      refine ⟨w, payload, hw, hpayload, fun hlost => ?_⟩
      obtain ⟨cause', hcause'⟩ := merge_path_iff.mpr hlost
      rw [hmerge] at hcause'
      exact nomatch hcause'
  · rintro ⟨w, payload, hw, hpayload, hfound⟩
    -- a readable file leaves the merge, which blames a value or a path
    rw [load_eq_merge hw hpayload]
    cases hmerge : merge disk (initial w) payload o with
    | ok c => exact .inl ⟨c, rfl⟩
    | error e =>
      cases e with
      | value cause => exact .inr ⟨cause, rfl⟩
      | path cause => exact absurd (merge_path_iff.mp ⟨cause, hmerge⟩) hfound

/-! ## One line -/

def OneLine (text : String) : Prop :=
  '\n' ∉ text.toList

instance (text : String) : Decidable (OneLine text) :=
  inferInstanceAs (Decidable ('\n' ∉ text.toList))

/-- A text is on one line if its two parts are. -/
theorem oneLine_append {a b : String} : OneLine (a ++ b) ↔ OneLine a ∧ OneLine b := by
  unfold OneLine
  rw [String.toList_append, List.mem_append, not_or]

theorem oneLine_between {front name back : String} (hfront : OneLine front) (hname : OneLine name)
    (hback : OneLine back) : OneLine (front ++ name ++ back) :=
  oneLine_append.mpr ⟨oneLine_append.mpr ⟨hfront, hname⟩, hback⟩

/-- A message is a line if what it names is one. -/
theorem oneLine_message {cause : Error} (hsection : ∀ s, cause = .notATable s → OneLine s)
    (hfield : ∀ field, cause.field? = some field → OneLine field) : OneLine cause.message := by
  cases cause with
  | notATable s =>
    show OneLine ("Config section '" ++ s ++ "' must be a table.")
    exact oneLine_between (by decide) (hsection s rfl) (by decide)
  | notABoolean field =>
    show OneLine ("Config field '" ++ field ++ "' must be a boolean.")
    exact oneLine_between (by decide) (hfield field rfl) (by decide)
  | notAText field =>
    show OneLine ("Config field '" ++ field ++ "' must be a non-empty string.")
    exact oneLine_between (by decide) (hfield field rfl) (by decide)
  | notAList field =>
    show OneLine ("Config field '" ++ field ++ "' must be a list of strings.")
    exact oneLine_between (by decide) (hfield field rfl) (by decide)
  | notOnlyTexts field =>
    show OneLine ("Config field '" ++ field ++ "' must contain only strings.")
    exact oneLine_between (by decide) (hfield field rfl) (by decide)
  | notPositive field =>
    show OneLine ("Config field '" ++ field ++ "' must be a positive integer.")
    exact oneLine_between (by decide) (hfield field rfl) (by decide)
  | tooGreat field =>
    show OneLine ("Config field '" ++ field ++ "' must be <= " ++ toString maxDebounceMs ++ ".")
    exact oneLine_between (oneLine_between (by decide) (hfield field rfl) (by decide)) (by decide)
      (by decide)
  | noCommand engine =>
    show OneLine ("Config field 'engines." ++ engine ++ "' must name the engine command.")
    -- the field is under the section of the engines
    have hengine := (oneLine_append.mp (hfield _ rfl)).2
    exact oneLine_between (by decide) hengine (by decide)

/-- What a merge fails for is named in a line. -/
theorem Blamed.oneLine {disk : Disk} {base : Config} {payload : Value.Fields} {o : Overrides}
    {cause : Error} (h : Blamed disk base payload o (.value cause)) : OneLine cause.message := by
  -- the names in a message are those of the sections and of the keys, all on one line
  have hsections : ∀ s ∈ sections, OneLine s := by decide
  have hkeys : ∀ k ∈ keys, OneLine k.path := by
    simp only [keys, settings, eventLogKey, Key.path, List.map_cons, List.map_nil, List.cons_append,
      List.nil_append, List.forall_mem_cons]
    decide
  cases h with
  | aSection hs =>
    exact oneLine_message (fun s heq => Error.notATable.inj heq ▸ hsections _ hs) fun _ h => by cases h
  | aKey hk hcause =>
    refine oneLine_message (fun s heq => ?_) fun field hfield => ?_
    · rw [heq] at hcause
      cases hcause
    · rw [hcause] at hfield
      exact Option.some.inj hfield ▸ hkeys _ hk
  | theTime hcause =>
    refine oneLine_message (fun s heq => ?_) fun field hfield => ?_
    · rw [heq] at hcause
      cases hcause
    · rw [hcause] at hfield
      exact Option.some.inj hfield ▸ by decide

end Packwright.Config

/-! ## The program -/

namespace Packwright.Rehearsal

open Packwright.Config (LoadError MergeError)

variable {args : List String} {i : CommandLine.Invocation}

/-- A failure to load is what the program ends with, if it does not explain it. -/
theorem runProgram_of_load_error (hargs : CommandLine.parse args = .ok i) {session : Session}
    (stage : Stage) {e : LoadError}
    (h : Config.load session.disk (.ofString i.workspace) i.overrides = .error e) :
    runProgram args session stage =
      ((CommandLine.conclude session (.failed (.ofConfig e))).1,
        (CommandLine.conclude session (.failed (.ofConfig e))).2, stage) := by
  unfold runProgram
  rw [hargs]
  dsimp only
  rw [h]

/-- Only a wrong value is explained. -/
theorem explanation?_ofConfig {e : LoadError} (h : ∀ cause, e ≠ .merge (.value cause)) :
    CommandLine.explanation? (.ofConfig e) = none := by
  cases e with
  | merge cause =>
    cases cause with
    | value cause => exact absurd rfl (h cause)
    | path cause => rfl
  | document cause => cases cause <;> rfl
  | _ => rfl

/-- How the program ends when its configuration cannot be used. -/
structure Explains (args : List String) (i : CommandLine.Invocation) (session : Session)
    (stage : Stage) : Prop where
  /-- A configuration is loaded, or refused for a wrong value, exactly if nothing else is in the way,
  whatever workspace and overrides are given. -/
  judged_iff : ∀ workspace o,
    ((∃ c, Config.load session.disk workspace o = .ok c) ∨
        ∃ cause, Config.load session.disk workspace o = .error (.merge (.value cause))) ↔
      Config.Judged session.disk workspace o
  /-- A wrong value is explained in a line, and the status is 2. -/
  refused : ∀ cause, Config.load session.disk (.ofString i.workspace) i.overrides =
      .error (.merge (.value cause)) →
    runProgram args session stage = (.status 2, session.error ("buildtool: " ++ cause.message), stage) ∧
      Config.OneLine ("buildtool: " ++ cause.message)
  /-- Any other failure is left to whoever has started the program. -/
  unexplained : ∀ e, Config.load session.disk (.ofString i.workspace) i.overrides = .error e →
    (∀ cause, e ≠ .merge (.value cause)) →
      runProgram args session stage = (.failure (.ofConfig e), session, stage)

/-- **A configuration that says something wrong ends the program with status 2 and one line**, unless
it cannot be read at all, or its paths cannot be made absolute. -/
theorem explains_runProgram (hargs : CommandLine.parse args = .ok i) (session : Session)
    (stage : Stage) : Explains args i session stage where
  judged_iff := Config.load_judged_iff _
  refused cause h := by
    refine ⟨runProgram_of_load_error hargs stage h, Config.oneLine_append.mpr ⟨by decide, ?_⟩⟩
    -- the cause comes from the merge, whose verdict names the field
    obtain ⟨w, payload, -, -, hmerge⟩ := Config.exists_merge_of_load h
    have hverdict : Config.Verdict _ _
        (Config.merge session.disk (Config.initial w) payload i.overrides) := Config.verdict_merge
    rw [hmerge] at hverdict
    exact Config.Blamed.oneLine hverdict
  unexplained e h hnot := by
    rw [runProgram_of_load_error hargs stage h]
    unfold CommandLine.conclude
    dsimp only
    rw [explanation?_ofConfig hnot]

def buildArgs : List String := ["build", "a.ts"]

/-- What it asks for. -/
def buildInvocation : CommandLine.Invocation where
  workspace := "."
  sourceMaps := false
  noAnnotations := false
  debounceMs? := none
  eventLog? := none
  command := .build
  entries := ["a.ts"]
  extra := []

theorem parse_buildArgs : CommandLine.parse buildArgs = .ok buildInvocation := by cbv

/-- A workspace with a configuration file. -/
def configuredDisk (document : String) : Disk :=
  ⟨[(["buildtool.toml"], .file (Text.Utf8.encode document))], []⟩

/-- A window of zero milliseconds, which the file is refused for. -/
theorem explains_runProgram_zeroWindow :
    Config.load (configuredDisk "[watch]\ndebounce_ms = 0") (.ofString ".") buildInvocation.overrides =
        .error (.merge (.value (.notPositive "watch.debounce_ms"))) ∧
      Explains buildArgs buildInvocation (.ofDisk (configuredDisk "[watch]\ndebounce_ms = 0") "")
        ⟨[], [], false⟩ :=
  ⟨by cbv, explains_runProgram parse_buildArgs _ _⟩

/-- **A file that is no document is not explained**: the configuration is neither loaded nor refused
for a wrong value, and the program does not end with status 2. -/
theorem exists_unexplained :
    Config.load (configuredDisk "x") (.ofString ".") buildInvocation.overrides =
        .error (.document .malformed) ∧
      runProgram buildArgs (.ofDisk (configuredDisk "x") "") ⟨[], [], false⟩ =
        (.failure .configDocument, .ofDisk (configuredDisk "x") "", ⟨[], [], false⟩) := by
  have hload : Config.load (configuredDisk "x") (.ofString ".") buildInvocation.overrides =
      .error (.document .malformed) := by cbv
  have hsession : Config.load (Session.ofDisk (configuredDisk "x") "").disk
      (.ofString buildInvocation.workspace) buildInvocation.overrides = .error (.document .malformed) :=
    hload
  exact ⟨hload, runProgram_of_load_error parse_buildArgs ⟨[], [], false⟩ hsession⟩

end Packwright.Rehearsal
