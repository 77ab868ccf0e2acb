import Packwright.Proofs.Config.Reading

/-!
# The layers of a configuration

A merge takes for each setting what the command line says, else what the file says, else what was
there before; it does so exactly if all that is said is acceptable, overridden or not.

* `Blamed` lists what a merge can fail for: a section, a key, the time on the command line, or a
  path. Nothing of it can be there if all is acceptable (`not_blamed`).
* `verdict_merge` goes through the readers of a merge in their order.
* `proper_of_reachable`: the settings of a configuration stay acceptable from merge to merge.
-/

namespace Packwright.Config

/-! ## What a file says under a key -/

/-- What counts as said under a key: a null says nothing, unless a list is asked for. -/
def Key.told? (k : Key) (payload : Value.Fields) : Option Value :=
  match k.kind with
  | .texts => k.at? payload
  | _ => (k.at? payload).bind present?

/-- Where no null is written, what a key is told is what is written there. -/
theorem Key.told?_eq_at? {k : Key} {payload : Value.Fields} (h : k.at? payload ≠ some .null) :
    k.told? payload = k.at? payload := by
  have hpresent : (k.at? payload).bind present? = k.at? payload := by
    cases hat : k.at? payload with
    | none => rfl
    | some v =>
      cases v with
      | null => exact absurd hat h
      | _ => rfl
  unfold Key.told?
  split
  · rfl
  · exact hpresent

/-- Fields that are those of a section of a file. -/
def HoldsSection (payload : Value.Fields) (s : String) (fields : Value.Fields) : Prop :=
  ∀ name, fields.get? name = (payload.get? s).bind (·.field? name)

/-- The readers of single values see what the key is told. -/
theorem HoldsSection.present?_fieldOf {payload : Value.Fields} {k : Key} {fields : Value.Fields}
    (h : HoldsSection payload k.sectionName fields) (hkind : k.kind ≠ .texts) :
    present? (fieldOf fields k.name) = k.told? payload := by
  have hat : fields.get? k.name = k.at? payload := h k.name
  have htold : k.told? payload = (k.at? payload).bind present? := by
    unfold Key.told?
    split
    · exact absurd ‹_› hkind
    · rfl
  rw [htold, ← hat, fieldOf]
  cases fields.get? k.name <;> rfl

/-- The reader of lists sees it too, and does not pass a null over. -/
theorem HoldsSection.get? {payload : Value.Fields} {k : Key} {fields : Value.Fields}
    (h : HoldsSection payload k.sectionName fields) (hkind : k.kind = .texts) :
    fields.get? k.name = k.told? payload := by
  unfold Key.told?
  rw [hkind]
  exact h k.name

/-! ## What a merge can fail for -/

section Merge

variable (disk : Disk) (base : Config) (payload : Value.Fields) (o : Overrides)

/-- What a merge can fail for. -/
inductive Blamed : MergeError → Prop
  | aSection {s : String} {v : Value} (hs : s ∈ sections) (hv : payload.get? s = some v)
      (hnot : v.isTable = false) : Blamed (.value (.notATable s))
  | aKey {k : Key} {v : Value} {cause : Error} (hk : k ∈ keys) (hcause : cause.field? = some k.path)
      (hv : k.told? payload = some v) (hnot : ¬ k.kind.Accepts v) : Blamed (.value cause)
  | theTime {v : Value} {cause : Error} (hcause : cause.field? = some "overrides.debounce_ms")
      (hv : o.time? = some v) (hnot : ¬ Kind.time.Accepts v) : Blamed (.value cause)
  | aPath {p : FilePath} {cause : Disk.ResolveError}
      (hp : p ∈ pathsGiven base.workspace payload o) (hcause : disk.resolve p = .error cause) :
      Blamed (.path cause)

variable {disk base payload o}

/-- A reader that is given what a file says under a key. -/
theorem Verdict.at_key {α : Type} {there? : Option Value} {old : Value} {written : α → Value}
    {x : Except MergeError α} {k : Key}
    (hread : Verdict (Rejects k.kind k.path there?)
      (fun new => Takes k.kind there? old (written new)) x)
    (hk : k ∈ keys) (hthere : there? = k.told? payload) :
    Verdict (Blamed disk base payload o)
      (fun new => Takes k.kind (k.told? payload) old (written new)) x := by
  rw [hthere] at hread
  refine hread.mono (fun e he => ?_) fun _ hnew => hnew
  obtain ⟨cause, v, rfl, hcause, hv, hnot⟩ := he
  exact .aKey hk hcause hv hnot

/-! ## Steps of a merge -/

/-- A section is a table or not there, or an error tells that something else is in its place. -/
theorem verdict_section (payload : Value.Fields) (s : String) :
    Verdict
      (fun e => e = .value (.notATable s) ∧ ∃ v, payload.get? s = some v ∧ v.isTable = false)
      (fun fields => (∀ v, payload.get? s = some v → v.isTable = true) ∧
        HoldsSection payload s fields)
      (sectionOf payload s) := by
  unfold sectionOf
  cases hv : payload.get? s with
  | none => exact ⟨fun v h => (nomatch h), fun name => by rw [hv]; rfl⟩
  | some v =>
    cases v with
    | table fields =>
      exact ⟨fun v h => by rw [← Option.some.inj h]; rfl, fun name => by rw [hv]; rfl⟩
    | _ => exact ⟨rfl, _, rfl, rfl⟩

/-- A section of the configuration is either read or rightly blamed. -/
theorem verdict_sectionOf {s : String} (hs : s ∈ sections) :
    Verdict (Blamed disk base payload o)
      (fun fields => (∀ v, payload.get? s = some v → v.isTable = true) ∧
        HoldsSection payload s fields)
      (sectionOf payload s) := by
  refine (verdict_section payload s).mono ?_ fun _ h => h
  rintro _ ⟨rfl, v, hv, hnot⟩
  exact .aSection hs hv hnot

/-- The outputs, field by field. -/
theorem verdict_mergeOutputs {fields : Value.Fields} (h : HoldsSection payload "build" fields)
    (old : OutputChoice) :
    Verdict (Blamed disk base payload o)
      (fun new =>
        Takes .truth (Key.told? ⟨"build", "source_map", .truth⟩ payload)
          (.bool old.sourceMaps) (.bool new.sourceMaps) ∧
        Takes .truth (Key.told? ⟨"build", "pure_annotations", .truth⟩ payload)
          (.bool old.pureAnnotations) (.bool new.pureAnnotations))
      (mergeOutputs old fields) := by
  unfold mergeOutputs
  refine ((verdict_readBool _ _ _).at_key (k := ⟨"build", "source_map", .truth⟩)
    (by simp [keys, settings]) (h.present?_fieldOf (by decide))).bind fun _ hsourceMaps => ?_
  refine ((verdict_readBool _ _ _).at_key (k := ⟨"build", "pure_annotations", .truth⟩)
    (by simp [keys, settings]) (h.present?_fieldOf (by decide))).bind fun _ hpure => ?_
  exact ⟨hsourceMaps, hpure⟩

/-- The language, field by field. -/
theorem verdict_mergeLanguage {fields : Value.Fields} (h : HoldsSection payload "compiler" fields)
    (old : LanguageLevel) :
    Verdict (Blamed disk base payload o)
      (fun new =>
        Takes .text (Key.told? ⟨"compiler", "target", .text⟩ payload)
          (.text old.target) (.text new.target) ∧
        Takes .text (Key.told? ⟨"compiler", "module", .text⟩ payload)
          (.text old.module) (.text new.module) ∧
        Takes .texts (Key.told? ⟨"compiler", "lib", .texts⟩ payload)
          (.texts old.lib) (.texts new.lib) ∧
        Takes .texts (Key.told? ⟨"compiler", "types", .texts⟩ payload)
          (.texts old.types) (.texts new.types) ∧
        Takes .truth (Key.told? ⟨"compiler", "strict", .truth⟩ payload)
          (.bool old.strict) (.bool new.strict))
      (mergeLanguage old fields) := by
  unfold mergeLanguage
  -- in the order of the readers, which is not that of the fields
  refine ((verdict_readTexts _ _ _).at_key (k := ⟨"compiler", "lib", .texts⟩)
    (by simp [keys, settings]) (h.get? rfl)).bind fun _ hlib => ?_
  refine ((verdict_readTexts _ _ _).at_key (k := ⟨"compiler", "types", .texts⟩)
    (by simp [keys, settings]) (h.get? rfl)).bind fun _ htypes => ?_
  refine ((verdict_readText _ _ _).at_key (k := ⟨"compiler", "target", .text⟩)
    (by simp [keys, settings]) (h.present?_fieldOf (by decide))).bind fun _ htarget => ?_
  refine ((verdict_readText _ _ _).at_key (k := ⟨"compiler", "module", .text⟩)
    (by simp [keys, settings]) (h.present?_fieldOf (by decide))).bind fun _ hmodule => ?_
  refine ((verdict_readBool _ _ _).at_key (k := ⟨"compiler", "strict", .truth⟩)
    (by simp [keys, settings]) (h.present?_fieldOf (by decide))).bind fun _ hstrict => ?_
  exact ⟨htarget, hmodule, hlib, htypes, hstrict⟩

/-- The engines, field by field. -/
theorem verdict_mergeEngines {fields : Value.Fields} (h : HoldsSection payload "engines" fields)
    (old : EngineCommands) :
    Verdict (Blamed disk base payload o)
      (fun new =>
        Takes .texts (Key.told? ⟨"engines", "compiler", .texts⟩ payload)
          (.texts old.compiler) (.texts new.compiler) ∧
        Takes .texts (Key.told? ⟨"engines", "bundler", .texts⟩ payload)
          (.texts old.bundler) (.texts new.bundler))
      (mergeEngines old fields) := by
  unfold mergeEngines
  refine ((verdict_readTexts _ _ _).at_key (k := ⟨"engines", "compiler", .texts⟩)
    (by simp [keys, settings]) (h.get? rfl)).bind fun _ hcompiler => ?_
  refine ((verdict_readTexts _ _ _).at_key (k := ⟨"engines", "bundler", .texts⟩)
    (by simp [keys, settings]) (h.get? rfl)).bind fun _ hbundler => ?_
  exact ⟨hcompiler, hbundler⟩

/-- A path that is given is made absolute, or is to blame. -/
theorem verdict_absolute {p : FilePath} (hp : p ∈ pathsGiven base.workspace payload o)
    (old? : Option FilePath) :
    Verdict (Blamed disk base payload o) (fun new? => ResolvesTo disk (some p) old? new?)
      ((absolute disk p).map some) := by
  unfold absolute
  cases hq : disk.resolve p with
  | error cause => exact .aPath hp hq
  | ok q => exact ⟨q, hq, rfl⟩

/-- An accepted event log is a text with something in it, so the file has given a path. -/
theorem fileLog?_of_takes {workspace : FilePath} {v : Value} {path : String}
    (hv : eventLogKey.at? payload = some v)
    (h : Takes .text (present? v) (.text "") (.text path)) :
    fileLog? workspace payload = some (workspace.child path) := by
  obtain ⟨haccepted, hpath⟩ := h
  unfold fileLog?
  rw [hv]
  cases v with
  | null => rw [Value.text.inj hpath]
  | text s =>
    -- the text is not empty, so it is joined to the workspace
    have hne : s ≠ "" := by
      cases haccepted _ rfl with
      | text hne => exact hne
    rw [Value.text.inj hpath]
    exact if_neg fun hempty => hne (String.isEmpty_iff.mp hempty)
  | _ => exact nomatch haccepted _ rfl

/-- The event log is accepted as a text and then resolved, and either can be blamed. -/
theorem verdict_mergeEventLog {fields : Value.Fields} (h : HoldsSection payload "log" fields) :
    Verdict (Blamed disk base payload o)
      (fun new? => (∀ v, eventLogKey.told? payload = some v → Kind.text.Accepts v) ∧
        ResolvesTo disk (fileLog? base.workspace payload) base.eventLog? new?)
      (mergeEventLog disk base.workspace base.eventLog? fields) := by
  have hat : fields.get? "event_log" = eventLogKey.at? payload := h "event_log"
  have htold : eventLogKey.told? payload = (eventLogKey.at? payload).bind present? := rfl
  unfold mergeEventLog
  rw [hat]
  cases hv : eventLogKey.at? payload with
  | none =>
    have hnone : fileLog? base.workspace payload = none := by
      unfold fileLog?
      rw [hv]
    rw [htold, hv, hnone]
    exact ⟨fun v h => (nomatch h), rfl⟩
  | some v =>
    have hthere : present? v = eventLogKey.told? payload := by rw [htold, hv, Option.bind_some]
    -- an empty text is blamed here, before any path is made of it
    refine ((verdict_readText _ v "").at_key (k := eventLogKey) (by simp [keys]) hthere).bind
      fun path hpath => ?_
    have hgiven : fileLog? base.workspace payload = some (base.workspace.child path) :=
      fileLog?_of_takes hv (hthere.symm ▸ hpath)
    have hmem : base.workspace.child path ∈ pathsGiven base.workspace payload o := by
      simp [pathsGiven, hgiven]
    rw [hgiven]
    exact (verdict_absolute hmem base.eventLog?).mono (fun _ he => he) fun _ hnew => ⟨hpath.1, hnew⟩

/-- What the command line makes of a configuration. -/
structure Overridden (disk : Disk) (m : Config) (o : Overrides) (c : Config) : Prop where
  timed : o.Valid
  settled : ∀ f ∈ settings, f.value c = (f.given? o).getD (f.value m)
  eventLog : ResolvesTo disk o.eventLog? m.eventLog? c.eventLog?
  workspace : c.workspace = m.workspace

/-- What the command line leaves alone is unchanged. -/
theorem overridden_of_takes {m : Config} {debounceMs : Nat} {eventLog? : Option FilePath}
    (hdebounce : Takes .time o.time? (.int m.debounceMs) (.int debounceMs))
    (heventLog : ResolvesTo disk o.eventLog? m.eventLog? eventLog?) :
    Overridden disk m o { m with
      outputs := ⟨o.sourceMaps?.getD m.outputs.sourceMaps,
        o.pureAnnotations?.getD m.outputs.pureAnnotations⟩
      debounceMs := debounceMs
      eventLog? := eventLog? } := by
  have htruth : ∀ (given? : Option Bool) (old : Bool),
      Value.bool (given?.getD old) = (given?.map Value.bool).getD (.bool old) := by
    intro given? old
    cases given? <;> rfl
  refine ⟨hdebounce.1, ?_, heventLog, rfl⟩
  -- the settings, one by one
  simp only [settings, List.forall_mem_cons]
  exact ⟨htruth _ _, htruth _ _, rfl, rfl, rfl, rfl, rfl, rfl, hdebounce.2, rfl, rfl, by simp⟩

/-- The command line is settled last: the time and the path of its event log are checked, the rest
is taken. -/
theorem verdict_override (m : Config) :
    Verdict (Blamed disk base payload o) (Overridden disk m o) (override disk m o) := by
  unfold override
  have htime : Verdict (Blamed disk base payload o)
      (fun new : Nat => Takes .time o.time? (.int m.debounceMs) (.int new))
      (readDebounce "overrides.debounce_ms" o.debounceMs m.debounceMs) :=
    (verdict_readDebounce _ _ _).mono
      (fun e ⟨cause, v, he, hcause, hv, hnot⟩ => he ▸ .theTime hcause hv hnot) fun _ hnew => hnew
  refine htime.bind fun debounceMs hdebounce => ?_
  -- a path that was given must resolve; without one the old event log stays
  dsimp only
  cases hgiven : o.eventLog? with
  | none => exact overridden_of_takes hdebounce (by rw [hgiven]; rfl)
  | some p =>
    have hmem : p ∈ pathsGiven base.workspace payload o := by simp [pathsGiven, hgiven]
    exact (verdict_absolute hmem m.eventLog?).bind fun eventLog? heventLog =>
      overridden_of_takes hdebounce (by rw [hgiven]; exact heventLog)

/-! ## The merge -/

/-- What a merge that succeeds has found, and what it makes of it. -/
structure Merged (disk : Disk) (base : Config) (payload : Value.Fields) (o : Overrides)
    (c : Config) : Prop where
  tables : ∀ s ∈ sections, ∀ v, payload.get? s = some v → v.isTable = true
  accepted : ∀ k ∈ keys, ∀ v, k.told? payload = some v → k.kind.Accepts v
  timed : o.Valid
  resolvable : Resolvable disk base.workspace payload o
  settled : ∀ f ∈ settings, f.value c = ((f.given? o).or (f.told? payload)).getD (f.value base)
  eventLog : ResolvesTo disk (o.eventLog?.or (fileLog? base.workspace payload)) base.eventLog?
    c.eventLog?
  workspace : c.workspace = base.workspace

/-- A path that was given has been resolved. -/
theorem ResolvesTo.exists_of_mem {given? old? new? : Option FilePath}
    (h : ResolvesTo disk given? old? new?) {p : FilePath} (hp : p ∈ given?.toList) :
    ∃ q, disk.resolve p = .ok q := by
  cases given? with
  | none => exact absurd hp List.not_mem_nil
  | some p' =>
    obtain ⟨q, hq, -⟩ := h
    exact ⟨q, List.mem_singleton.mp hp ▸ hq⟩

/-- The outcome is determined by what was given. -/
theorem ResolvesTo.unique {given? old? new? new'? : Option FilePath}
    (h : ResolvesTo disk given? old? new?) (h' : ResolvesTo disk given? old? new'?) :
    new? = new'? := by
  cases given? with
  | none => exact Eq.trans (show new? = old? from h) (show new'? = old? from h').symm
  | some p =>
    obtain ⟨q, hq, hnew⟩ := h
    obtain ⟨q', hq', hnew'⟩ := h'
    rw [hq] at hq'
    rw [hnew, hnew', Except.ok.inj hq']

/-- Two layers resolved one after the other resolve as the upper one, or else the lower. -/
theorem ResolvesTo.or {first? second? old? between? new? : Option FilePath}
    (hsecond : ResolvesTo disk second? old? between?) (hfirst : ResolvesTo disk first? between? new?) :
    ResolvesTo disk (first?.or second?) old? new? := by
  cases first? with
  | none =>
    have hkept : new? = between? := hfirst
    rw [hkept]
    exact hsecond
  | some p => exact hfirst

/-- **What a merge yields**, and what it can fail for. -/
theorem verdict_merge :
    Verdict (Blamed disk base payload o) (Merged disk base payload o)
      (merge disk base payload o) := by
  unfold merge
  -- every section has to be a table, before any is looked into
  refine (verdict_sectionOf (s := "build") (by decide)).bind fun build hbuild => ?_
  refine (verdict_sectionOf (s := "compiler") (by decide)).bind fun compiler hcompiler => ?_
  refine (verdict_sectionOf (s := "docs") (by decide)).bind fun docs hdocs => ?_
  refine (verdict_sectionOf (s := "watch") (by decide)).bind fun watch hwatch => ?_
  refine (verdict_sectionOf (s := "engines") (by decide)).bind fun engines hengines => ?_
  refine (verdict_sectionOf (s := "log") (by decide)).bind fun log hlog => ?_
  refine (verdict_mergeOutputs hbuild.2 _).bind fun outputs houtputs => ?_
  refine (verdict_mergeLanguage hcompiler.2 _).bind fun language hlanguage => ?_
  refine (verdict_mergeEngines hengines.2 _).bind fun commands hcommands => ?_
  refine (verdict_mergeEventLog hlog.2).bind fun eventLog? heventLog => ?_
  refine ((verdict_readText _ _ _).at_key (k := ⟨"docs", "base_url", .text⟩)
    (by simp [keys, settings]) (hdocs.2.present?_fieldOf (by decide))).bind fun baseUrl hbaseUrl => ?_
  refine ((verdict_readDebounce _ _ _).at_key (k := ⟨"watch", "debounce_ms", .time⟩)
    (by simp [keys, settings]) (hwatch.2.present?_fieldOf (by decide))).bind
    fun debounceMs hdebounce => ?_
  -- the command line is looked at only after the whole file has been accepted
  refine (verdict_override _).mono (fun _ he => he) ?_
  intro c hover
  have hfile : ∀ f ∈ settings, Takes f.kind (f.told? payload) (f.value base)
      (f.value ⟨base.workspace, outputs, language, baseUrl, debounceMs, commands, eventLog?⟩) := by
    simp only [settings, List.forall_mem_cons]
    exact ⟨houtputs.1, houtputs.2, hlanguage.1, hlanguage.2.1, hlanguage.2.2.1, hlanguage.2.2.2.1,
      hlanguage.2.2.2.2, hbaseUrl, hdebounce, hcommands.1, hcommands.2, by simp⟩
  constructor
  case tables =>
    simp only [sections, List.forall_mem_cons]
    exact ⟨hbuild.1, hcompiler.1, hdocs.1, hwatch.1, hengines.1, hlog.1, by simp⟩
  case accepted =>
    intro k hk
    rcases List.mem_append.mp hk with hsetting | hlast
    · obtain ⟨f, hf, rfl⟩ := List.mem_map.mp hsetting
      exact (hfile f hf).1
    · rw [List.mem_singleton.mp hlast]
      exact heventLog.1
  case timed => exact hover.timed
  case resolvable =>
    intro p hp
    rcases List.mem_append.mp hp with hinFile | hinLine
    · exact heventLog.2.exists_of_mem hinFile
    · exact hover.eventLog.exists_of_mem hinLine
  case settled =>
    -- the two layers, one above the other
    intro f hf
    rw [hover.settled f hf, (hfile f hf).2]
    cases f.given? o <;> rfl
  case eventLog => exact heventLog.2.or hover.eventLog
  case workspace => exact hover.workspace

/-- Where all that is said is acceptable, a path is to blame. -/
theorem Blamed.exists_path
    (htables : ∀ s ∈ sections, ∀ v, payload.get? s = some v → v.isTable = true)
    (haccepted : ∀ k ∈ keys, ∀ v, k.told? payload = some v → k.kind.Accepts v) (htimed : o.Valid)
    {e : MergeError} (h : Blamed disk base payload o e) :
    ∃ p ∈ pathsGiven base.workspace payload o, ∃ cause,
      disk.resolve p = .error cause ∧ e = .path cause := by
  cases h with
  | aSection hs hv hnot => exact absurd (htables _ hs _ hv) (by rw [hnot]; decide)
  | aKey hk _ hv hnot => exact absurd (haccepted _ hk _ hv) hnot
  | theTime _ hv hnot => exact absurd (htimed _ hv) hnot
  | aPath hp hcause => exact ⟨_, hp, _, hcause, rfl⟩

/-- Where the paths can be made absolute, too, there is nothing to fail for. -/
theorem not_blamed (htables : ∀ s ∈ sections, ∀ v, payload.get? s = some v → v.isTable = true)
    (haccepted : ∀ k ∈ keys, ∀ v, k.told? payload = some v → k.kind.Accepts v) (htimed : o.Valid)
    (hpaths : Resolvable disk base.workspace payload o) (e : MergeError) :
    ¬ Blamed disk base payload o e := by
  intro h
  obtain ⟨p, hp, cause, hcause, -⟩ := h.exists_path htables haccepted htimed
  obtain ⟨q, hq⟩ := hpaths p hp
  rw [hq] at hcause
  exact nomatch hcause

/-! ## Settings that stay acceptable -/

/-- A configuration whose settings are all acceptable. -/
def Proper (c : Config) : Prop :=
  ∀ f ∈ settings, f.kind.Accepts (f.value c)

/-- The defaults are in order: every default passes the check of its own field. -/
theorem proper_initial (workspace : FilePath) : Proper (initial workspace) := by
  unfold Proper
  simp only [settings, List.forall_mem_cons]
  have htarget : (initial workspace).language.target ≠ "" := show "es6" ≠ "" by decide
  have hmodule : (initial workspace).language.module ≠ "" := show "es2020" ≠ "" by decide
  have hbaseUrl : (initial workspace).docBaseUrl ≠ "" :=
    show "https://codemirror.net/6/docs/ref/" ≠ "" by decide
  have hdebounce : (initial workspace).debounceMs = 100 := rfl
  exact ⟨.truth _, .truth _, .text htarget, .text hmodule, .texts _, .texts _, .truth _,
    .text hbaseUrl, .time (by omega) (by rw [hdebounce]; decide), .texts _, .texts _, by simp⟩

/-- What a valid command line gives passes the check of its field. -/
theorem accepts_given (h : o.Valid) {f : Setting} (hf : f ∈ settings) {v : Value}
    (hv : f.given? o = some v) : f.kind.Accepts v := by
  have htruth : ∀ given? : Option Bool, given?.map Value.bool = some v → Kind.truth.Accepts v := by
    intro given? hmap
    obtain ⟨b, -, rfl⟩ := Option.map_eq_some_iff.mp hmap
    exact .truth b
  have hall : ∀ f ∈ settings, f.given? o = some v → f.kind.Accepts v := by
    simp only [settings, List.forall_mem_cons]
    exact ⟨htruth _, htruth _, nofun, nofun, nofun, nofun, nofun, nofun, h v, nofun, nofun, by simp⟩
  exact hall f hf hv

/-- Whichever layer a setting comes from, it is acceptable. -/
theorem Merged.proper {c : Config} (h : Merged disk base payload o c) (hbase : Proper base) :
    Proper c := by
  intro f hf
  rw [h.settled f hf]
  cases hgiven : f.given? o with
  | some v => exact accepts_given h.timed hf hgiven
  | none =>
    rw [Option.none_or]
    cases htold : f.told? payload with
    | some v =>
      exact h.accepted f.toKey (List.mem_append_left _ (List.mem_map_of_mem hf)) v htold
    | none => exact hbase f hf

end Merge

/-- So every configuration that any files and command lines lead to is in order, and stays with its
workspace. -/
theorem proper_of_reachable {workspace : FilePath} {c : Config} (h : ReachableFrom workspace c) :
    c.workspace = workspace ∧ Proper c := by
  induction h with
  | initial => exact ⟨rfl, proper_initial workspace⟩
  | @merged base c disk payload o _ hmerge ih =>
    have hverdict : Verdict _ _ (merge disk base payload o) := verdict_merge
    rw [hmerge] at hverdict
    exact ⟨(Merged.workspace hverdict).trans ih.1, Merged.proper hverdict ih.2⟩

/-- A configuration that names what it has to name, and collects changes for a time within
bounds. -/
structure InBounds (c : Config) : Prop where
  target : c.language.target ≠ ""
  module : c.language.module ≠ ""
  docBaseUrl : c.docBaseUrl ≠ ""
  debounce : 1 ≤ c.debounceMs ∧ c.debounceMs ≤ maxDebounceMs

/-- In particular the time is within its bounds. -/
theorem Proper.inBounds {c : Config} (h : Proper c) : InBounds c := by
  unfold Proper at h
  simp only [settings, List.forall_mem_cons] at h
  obtain ⟨-, -, htarget, hmodule, -, -, -, hbaseUrl, hdebounce, -⟩ := h
  cases htarget with
  | text htarget =>
    cases hmodule with
    | text hmodule =>
      cases hbaseUrl with
      | text hbaseUrl =>
        cases hdebounce with
        | time hpos hle => exact ⟨htarget, hmodule, hbaseUrl, by omega, by omega⟩

/-! ## Precedence -/

/-- How three layers are merged: if and only if all that is said is acceptable, and then the upper
ones count more. -/
structure Precedence (disk : Disk) (base : Config) (payload : Value.Fields) (o : Overrides) :
    Prop where
  succeeds : (∃ c, merge disk base payload o = .ok c) ↔
    Valid payload ∧ o.Valid ∧ Resolvable disk base.workspace payload o
  /-- What is not acceptable is an error of its own kind, even where it would be overridden. -/
  raises : Resolvable disk base.workspace payload o → ¬ (Valid payload ∧ o.Valid) →
    ∃ cause, merge disk base payload o = .error (.value cause) ∧
      Blamed disk base payload o (.value cause)
  layered : ∀ c, merge disk base payload o = .ok c → Layered disk base payload o c

/-- The layers leave nothing open. -/
theorem Layered.unique {disk : Disk} {base : Config} {payload : Value.Fields} {o : Overrides}
    {c c' : Config} (h : Layered disk base payload o c) (h' : Layered disk base payload o c') :
    c = c' := by
  have hlog : c.eventLog? = c'.eventLog? := h.eventLog.unique h'.eventLog
  have hsettings : ∀ f ∈ settings, f.value c = f.value c' := fun f hf => by
    rw [h.settled f hf, h'.settled f hf]
  have hworkspace : c.workspace = c'.workspace := h.workspace.trans h'.workspace.symm
  have htexts : ∀ {xs ys : List String}, Value.texts xs = .texts ys → xs = ys := fun heq =>
    (List.map_inj_right fun _ _ => Value.text.inj).mp (Value.list.inj heq)
  simp only [settings, List.forall_mem_cons, Value.bool.injEq, Value.text.injEq, Value.int.injEq,
    Int.natCast_inj] at hsettings
  -- the settings cover every field but the workspace and the log
  obtain ⟨hmaps, hpure, htarget, hmodule, hlib, htypes, hstrict, hbaseUrl, hdebounce, hcompiler,
    hbundler, -⟩ := hsettings
  obtain ⟨workspace, ⟨maps, pure⟩, ⟨target, module, lib, types, strict⟩, baseUrl, debounce,
    ⟨compiler, bundler⟩, log?⟩ := c
  obtain ⟨workspace', ⟨maps', pure'⟩, ⟨target', module', lib', types', strict'⟩, baseUrl', debounce',
    ⟨compiler', bundler'⟩, log'?⟩ := c'
  dsimp only at *
  rw [hmaps, hpure, htarget, hmodule, htexts hlib, htexts htypes, hstrict, hbaseUrl, hdebounce,
    htexts hcompiler, htexts hbundler, hlog, hworkspace]

/-- Without a null, a file is valid exactly if its sections are tables and what its keys are told is
accepted. -/
theorem valid_iff {payload : Value.Fields} (hnull : NoNull payload) :
    Valid payload ↔ (∀ s ∈ sections, ∀ v, payload.get? s = some v → v.isTable = true) ∧
      ∀ k ∈ keys, ∀ v, k.told? payload = some v → k.kind.Accepts v := by
  constructor
  · rintro ⟨htables, haccepted⟩
    refine ⟨htables, fun k hk v hv => haccepted k hk v ?_⟩
    rwa [Key.told?_eq_at? (hnull k hk)] at hv
  · rintro ⟨htables, haccepted⟩
    refine ⟨htables, fun k hk v hv => haccepted k hk v ?_⟩
    rwa [Key.told?_eq_at? (hnull k hk)]

/-- Without a null, a merged configuration is the layers laid over each other. -/
theorem Merged.layered {disk : Disk} {base : Config} {payload : Value.Fields} {o : Overrides}
    {c : Config} (h : Merged disk base payload o c) (hnull : NoNull payload) :
    Layered disk base payload o c := by
  refine ⟨fun f hf => ?_, h.eventLog, h.workspace⟩
  have hkey : f.toKey ∈ keys := List.mem_append_left _ (List.mem_map_of_mem hf)
  rw [h.settled f hf, Key.told?_eq_at? (hnull f.toKey hkey)]

/-- **The command line counts more than the file, and the file more than what was there**, and what
is merged stays in its workspace and in bounds. -/
theorem merge_precedence (disk : Disk) (base : Config) (payload : Value.Fields) (o : Overrides)
    (hnull : NoNull payload) :
    Precedence disk base payload o ∧
      ∀ workspace c, ReachableFrom workspace c → c.workspace = workspace ∧ InBounds c := by
  have hverdict : Verdict _ _ (merge disk base payload o) := verdict_merge
  have hvalid := valid_iff hnull
  refine ⟨?_, fun workspace c hc => (proper_of_reachable hc).imp_right Proper.inBounds⟩
  cases hmerge : merge disk base payload o with
  | ok c =>
    rw [hmerge] at hverdict
    have hmerged : Merged disk base payload o c := hverdict
    have hgood := hvalid.mpr ⟨hmerged.tables, hmerged.accepted⟩
    constructor
    case succeeds =>
      rw [hmerge]
      exact ⟨fun _ => ⟨hgood, hmerged.timed, hmerged.resolvable⟩, fun _ => ⟨c, rfl⟩⟩
    case raises => exact fun _ hnot => absurd ⟨hgood, hmerged.timed⟩ hnot
    case layered =>
      intro c' hc'
      rw [hmerge] at hc'
      exact Except.ok.inj hc' ▸ hmerged.layered hnull
  | error e =>
    rw [hmerge] at hverdict
    have hblamed : Blamed disk base payload o e := hverdict
    have hnot : Valid payload → o.Valid → ¬ Resolvable disk base.workspace payload o :=
      fun hgood htimed hpaths =>
        not_blamed (hvalid.mp hgood).1 (hvalid.mp hgood).2 htimed hpaths e hblamed
    constructor
    case succeeds =>
      rw [hmerge]
      exact ⟨fun ⟨_, h⟩ => (nomatch h), fun ⟨hgood, htimed, hpaths⟩ =>
        absurd hpaths (hnot hgood htimed)⟩
    case raises =>
      intro hpaths _
      cases e with
      | value cause => exact ⟨cause, hmerge, hblamed⟩
      | path cause =>
        -- a path that cannot be made absolute is not one of those that can
        cases hblamed with
        | aPath hp hcause =>
          obtain ⟨q, hq⟩ := hpaths _ hp
          rw [hq] at hcause
          exact nomatch hcause
    case layered =>
      intro c hc
      rw [hmerge] at hc
      exact nomatch hc

/-! ### A file under a command line -/

def bareDisk : Disk := ⟨[], []⟩

/-- A file that says how long changes are collected, and which checks are made. -/
def windowFile : Value.Fields :=
  [("watch", .table [("debounce_ms", .int 250)]), ("compiler", .table [("strict", .bool false)])]

/-- A command line that says something else about the time, and where events are logged. -/
def windowLine : Overrides := ⟨none, none, .int 40, some ⟨.relative, ["events"]⟩⟩

theorem noNull_windowFile : NoNull windowFile := by
  unfold NoNull
  simp [keys, settings, eventLogKey, Key.at?, windowFile, Dictionary.get?, Value.field?]

/-- A file and a command line that both set the window. -/
theorem merge_precedence_lineOverFile :
    NoNull windowFile ∧ Precedence bareDisk (initial (.ofLocation ["w"])) windowFile windowLine ∧
      ∀ workspace c, ReachableFrom workspace c → c.workspace = workspace ∧ InBounds c :=
  ⟨noNull_windowFile, merge_precedence bareDisk (initial (.ofLocation ["w"])) windowFile windowLine
    noNull_windowFile⟩

/-- A file whose event log is a text that no name on disk can be. -/
def unnameableLog : Value.Fields :=
  [("log", .table [("event_log", .text "a\x00b")])]

/-- The file with the unnameable log writes no null. -/
theorem noNull_unnameableLog : NoNull unnameableLog := by
  unfold NoNull
  simp [keys, settings, eventLogKey, Key.at?, unnameableLog, Dictionary.get?, Value.field?]

/-- And it is valid: the text of its log is not empty, whatever characters it has. -/
theorem valid_unnameableLog : Valid unnameableLog := by
  constructor
  · simp [sections, unnameableLog, Dictionary.get?, Value.isTable]
  · simp [keys, settings, eventLogKey, Key.at?, unnameableLog, Dictionary.get?, Value.field?]
    exact .text (by decide)

/-- But no path of that name can be resolved. -/
theorem resolve_unnameable :
    bareDisk.resolve ((FilePath.ofLocation ["w"]).child "a\x00b") = .error .nullCharacter := by
  have hplain : Disk.holdsNull "w" = false := by rw [Disk.holdsNull_eq]; decide
  have hnull : Disk.holdsNull "a\x00b" = true := by rw [Disk.holdsNull_eq]; decide
  have hchild : (FilePath.ofLocation ["w"]).child "a\x00b" = ⟨.rooted, ["w", "a\x00b"]⟩ := by rfl
  rw [hchild]
  simp [Disk.resolve, Disk.resolveFrom, hplain, hnull, bareDisk, Disk.entry?, Dictionary.get?]

/-- **A file may be accepted and yet not merge**: what it fails for is no wrong value. -/
theorem exists_unmergeable :
    ∃ (disk : Disk) (base : Config) (payload : Value.Fields) (o : Overrides),
      NoNull payload ∧ Valid payload ∧ o.Valid ∧
        merge disk base payload o = .error (.path .nullCharacter) := by
  have hnull := noNull_unnameableLog
  have hvalid := valid_unnameableLog
  have htimed : Overrides.none.Valid := fun v hv => nomatch hv
  have hgiven : pathsGiven (.ofLocation ["w"]) unnameableLog .none =
      [(FilePath.ofLocation ["w"]).child "a\x00b"] := by rfl
  refine ⟨bareDisk, initial (.ofLocation ["w"]), unnameableLog, .none, hnull, hvalid, htimed, ?_⟩
  have hverdict : Verdict _ _ (merge bareDisk (initial (.ofLocation ["w"])) unnameableLog .none) :=
    verdict_merge
  cases hmerge : merge bareDisk (initial (.ofLocation ["w"])) unnameableLog .none with
  | ok c =>
    rw [hmerge] at hverdict
    -- a merged configuration would have resolved the path
    obtain ⟨q, hq⟩ := Merged.resolvable hverdict _ (hgiven ▸ List.mem_singleton_self _)
    exact nomatch resolve_unnameable.symm.trans hq
  | error e =>
    rw [hmerge] at hverdict
    obtain ⟨htables, haccepted⟩ := (valid_iff hnull).mp hvalid
    -- nothing else can be blamed, and this is the only path that is given
    obtain ⟨p, hp, cause, hcause, rfl⟩ := Blamed.exists_path htables haccepted htimed hverdict
    have hpath : p = (FilePath.ofLocation ["w"]).child "a\x00b" :=
      List.mem_singleton.mp (hgiven ▸ hp)
    rw [hpath, resolve_unnameable] at hcause
    rw [Except.error.inj hcause]

end Packwright.Config
