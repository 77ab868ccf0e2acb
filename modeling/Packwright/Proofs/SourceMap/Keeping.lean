import Packwright.Proofs.Json.RoundTrip
import Packwright.Proofs.SourceMap.Alignment

/-!
# What a map keeps when it is moved

A map is read into a record of five fields and written from it. So a document that is moved comes
back with the sources and the names that it had, with its file unless that is null, and with its
contents if they are a list; whatever else it had is gone (`shiftText_keeps_iff`).

* `shift_eq_ok`: moving a map changes its mappings only.
* `get?_fields`: what the document of a map has at its keys.
* `read_toText`: the document of a map is read as the fields that it was written from.
-/

namespace Packwright.SourceMap

open Packwright.Text
open Packwright.Patch
open Json (IsReadable)

variable {m : SourceMap} {printed : Value.Fields}

/-! ## What a map is written as -/

/-- What a map is written with at a key that is neither the version's nor the mappings'. -/
def written? (m : SourceMap) (key : String) : Option Value :=
  if key = "file" then if m.file.isNull then none else some m.file
  else if key = "sources" then some (.list m.sources)
  else if key = "sourcesContent" then
    if m.sourcesContent.isNull then none else (elements m.sourcesContent).toOption.map .list
  else if key = "names" then some (.list m.names)
  else none

/-- A map is written with a version and mappings around what else it has. -/
theorem eq_of_fields (h : m.fields = .ok printed) :
    ∃ contents : Value.Fields,
      (m.sourcesContent.isNull = true ∧ contents = [] ∨
        m.sourcesContent.isNull = false ∧ ∃ items, elements m.sourcesContent = .ok items ∧
          contents = [("sourcesContent", .list items)]) ∧
      printed = ("version", .int 3) ::
        (if m.file.isNull then [] else [("file", m.file)]) ++ ("sources", .list m.sources) ::
        contents ++ [("names", .list m.names), ("mappings", .text m.mappings)] := by
  unfold fields at h
  -- the contents are printed if they are not null, and then they must be a list
  cases hnull : m.sourcesContent.isNull with
  | true =>
    rw [hnull] at h
    exact ⟨[], .inl ⟨rfl, rfl⟩, (Except.ok.inj h).symm⟩
  | false =>
    rw [hnull] at h
    cases hitems : elements m.sourcesContent with
    | error e =>
      rw [hitems] at h
      exact absurd h (by simp [Bind.bind, Except.bind])
    | ok items =>
      rw [hitems] at h
      exact ⟨_, .inr ⟨rfl, items, rfl, rfl⟩, (Except.ok.inj h).symm⟩

theorem nodup_keys_fields (h : m.fields = .ok printed) : (Dictionary.keys printed).Nodup := by
  obtain ⟨contents, hcontents, rfl⟩ := eq_of_fields h
  cases m.file.isNull <;> rcases hcontents with ⟨-, rfl⟩ | ⟨-, items, -, rfl⟩ <;>
    simp [Dictionary.keys]

/-- What is printed under a key is what is written of it, apart from the version and the mappings. -/
theorem get?_fields (h : m.fields = .ok printed) {key : String} (hversion : key ≠ "version")
    (hmappings : key ≠ "mappings") : Dictionary.get? printed key = m.written? key := by
  have hnodup := nodup_keys_fields h
  obtain ⟨contents, hcontents, rfl⟩ := eq_of_fields h
  by_cases hfile : key = "file"
  · subst hfile
    cases hnull : m.file.isNull <;> rcases hcontents with ⟨-, rfl⟩ | ⟨-, items, -, rfl⟩ <;>
      simp [Dictionary.get?, written?, hnull]
  by_cases hsources : key = "sources"
  · subst hsources
    exact Dictionary.get?_eq_some_of_mem hnodup (by simp)
  by_cases hnames : key = "names"
  · subst hnames
    exact Dictionary.get?_eq_some_of_mem hnodup (by simp)
  by_cases hcontent : key = "sourcesContent"
  · subst hcontent
    rcases hcontents with ⟨hnull, rfl⟩ | ⟨hnull, items, hitems, rfl⟩
    · cases m.file.isNull <;> simp [Dictionary.get?, written?, hnull]
    · have hwritten : m.written? "sourcesContent" = some (.list items) := by
        simp [written?, hnull, hitems, Except.toOption]
      rw [hwritten]
      exact Dictionary.get?_eq_some_of_mem hnodup (by simp)
  · -- no other key is written
    have hnone : m.written? key = none := by simp [written?, hfile, hsources, hnames, hcontent]
    rw [hnone]
    cases m.file.isNull <;> rcases hcontents with ⟨-, rfl⟩ | ⟨-, items, -, rfl⟩ <;>
      simp [Dictionary.get?, Ne.symm hversion, Ne.symm hmappings, Ne.symm hfile, Ne.symm hsources,
        Ne.symm hnames, Ne.symm hcontent]

/-- What a value stands for as a list can be read, if the value can. -/
theorem isReadable_of_elements {v : Value} {items : List Value} (hv : IsReadable v)
    (h : elements v = .ok items) : ∀ item ∈ items, IsReadable item := by
  intro item hitem
  cases hv with
  | list hitems => exact hitems item (Except.ok.inj h ▸ hitem)
  | text s =>
    rw [← Except.ok.inj h] at hitem
    obtain ⟨c, -, rfl⟩ := List.mem_map.mp hitem
    exact .text _
  | table hkeys hfields =>
    rw [← Except.ok.inj h] at hitem
    obtain ⟨p, -, rfl⟩ := List.mem_map.mp hitem
    exact .text _
  | _ => exact absurd h (by simp [elements])

/-- The version is a number that is short enough. -/
theorem isReadable_version : IsReadable (.int 3) :=
  .int fun _ hlimit => Option.some.inj hlimit ▸ (by decide : Binary64.digitCount 3 ≤ Json.maxDigits)

/-- Whether what a map holds can be read. -/
structure HoldsReadable (m : SourceMap) : Prop where
  sources : ∀ v ∈ m.sources, IsReadable v
  names : ∀ v ∈ m.names, IsReadable v
  file : IsReadable m.file
  sourcesContent : IsReadable m.sourcesContent

theorem HoldsReadable.withMappings (h : m.HoldsReadable) (mappings : String) :
    ({ m with mappings := mappings } : SourceMap).HoldsReadable :=
  ⟨h.sources, h.names, h.file, h.sourcesContent⟩

/-- **The document of a map is read as the fields that it was written from.** -/
theorem read_toText (hm : m.HoldsReadable) {text : String} (h : m.toText = .ok text) :
    ∃ printed, m.fields = .ok printed ∧ Json.read text = .ok (.table printed) := by
  obtain ⟨printed, hfields, htext⟩ := Traversal.bind_eq_ok_iff.mp h
  refine ⟨printed, hfields, ?_⟩
  rw [← Except.ok.inj htext]
  refine Json.read_write (.table (nodup_keys_fields hfields) ?_)
  obtain ⟨contents, hcontents, rfl⟩ := eq_of_fields hfields
  have hfile : ∀ p ∈ if m.file.isNull then [] else [("file", m.file)], IsReadable p.2 := by
    split
    · exact fun p hp => absurd hp List.not_mem_nil
    · exact List.forall_mem_singleton.mpr hm.file
  -- the contents were made a list when they were printed, of texts if they were none before
  have hcontent : ∀ p ∈ contents, IsReadable p.2 := by
    rcases hcontents with ⟨-, rfl⟩ | ⟨-, items, hitems, rfl⟩
    · exact fun p hp => absurd hp List.not_mem_nil
    · exact List.forall_mem_singleton.mpr (.list (isReadable_of_elements hm.sourcesContent hitems))
  intro p hp
  simp only [List.mem_append, List.mem_cons, List.not_mem_nil, or_false] at hp
  rcases hp with ((rfl | hp) | rfl | hp) | rfl | rfl
  · exact isReadable_version
  · exact hfile p hp
  · exact .list hm.sources
  · exact hcontent p hp
  · exact .list hm.names
  · exact .text _

/-- A map is written exactly if its contents are absent or stand for a list. -/
theorem exists_toText_iff : (∃ text, m.toText = .ok text) ↔
    m.sourcesContent = .null ∨ ∃ items, elements m.sourcesContent = .ok items := by
  have hnull : m.sourcesContent.isNull = true ↔ m.sourcesContent = .null := by
    cases m.sourcesContent <;> simp [Value.isNull]
  unfold toText fields
  cases hcontents : m.sourcesContent.isNull with
  | true => exact iff_of_true ⟨_, rfl⟩ (.inl (hnull.mp hcontents))
  | false =>
    have hsome : m.sourcesContent ≠ .null := by rw [Ne, ← hnull, hcontents]; decide
    cases hitems : elements m.sourcesContent with
    | error e => simp [hsome, Bind.bind, Except.bind]
    | ok items => exact iff_of_true ⟨_, rfl⟩ (.inr ⟨items, rfl⟩)

/-! ## What is moved -/

/-- **Moving a map changes its mappings only.** -/
theorem shift_eq_ok {moved : SourceMap} {code : List UInt8} {ps : List Patch}
    (h : m.shift code ps = .ok moved) : moved = { m with mappings := moved.mappings } := by
  unfold shift at h
  split at h
  · rw [← Except.ok.inj h]
  · split at h
    · rw [← Except.ok.inj h]
    · exact absurd h (by simp)

/-- Accepted patches move a map whose mappings can be read, and these follow the numbers. -/
theorem exists_shift_decoded {code : String} {ps : List Patch} {mappings : Mappings}
    {out : List UInt8} (hread : decodeMappings m.mappings.toList = .ok mappings)
    (happlied : applyToBytes (Utf8.encode code) ps = .ok out) :
    ∃ moved, m.shift (Utf8.encode code) ps = .ok moved ∧
      decodeMappings moved.mappings.toList =
        .ok (moveLines (shiftsByLine (Utf8.encode code) ps) mappings) := by
  have hlines : ∀ entry ∈ shiftsByLine (Utf8.encode code) ps, 0 ≤ entry.1 :=
    nonneg_of_mem_shiftsByLine fun p hp => le_start_of_applyFrom happlied hp
  obtain ⟨shifted, hshifted, hdecoded⟩ := shiftMappings_spec hread hlines
  unfold shift
  -- without a shift the mappings are not written anew
  cases hshifts : shiftsByLine (Utf8.encode code) ps with
  | nil => exact ⟨m, rfl, hread⟩
  | cons entry rest =>
    rw [hshifts] at hshifted hdecoded
    simp only [hshifted]
    refine ⟨_, rfl, ?_⟩
    rw [String.toList_ofList]
    exact hdecoded

/-- So where the mappings can be read and the patches applied, the map can be shifted. -/
theorem exists_shift {code : String} {ps : List Patch} {mappings : Mappings} {out : List UInt8}
    (hread : decodeMappings m.mappings.toList = .ok mappings)
    (happlied : applyToBytes (Utf8.encode code) ps = .ok out) :
    ∃ moved, m.shift (Utf8.encode code) ps = .ok moved := by
  obtain ⟨moved, hmoved, -⟩ := exists_shift_decoded hread happlied
  exact ⟨moved, hmoved⟩

/-- Whether the contents of the sources can be written: they are absent, or stand for a list. -/
def HasContents (document : Value.Fields) : Prop :=
  ∀ v, Dictionary.get? document "sourcesContent" = some v →
    v = .null ∨ ∃ items, elements v = .ok items

/-- Whether the document of a map has at a key what the document has that the map was read from:
nothing in both, the list of sources or of names, a file that is not null, or contents that are a
list. -/
def IsKept (document : Value.Fields) (key : String) : Prop :=
  ∀ v, Dictionary.get? document key = some v →
    key = "sources" ∨ key = "names" ∨ key = "file" ∧ v ≠ .null ∨
      key = "sourcesContent" ∧ ∃ items, v = .list items

section Documents

variable {document : Value.Fields} {mappings : String} {sources names : List Value}

/-- The map of a document with lists of sources and names. -/
def held (document : Value.Fields) (mappings : String) (sources names : List Value) : SourceMap :=
  ⟨mappings, sources, names, (Dictionary.get? document "file").getD .null,
    (Dictionary.get? document "sourcesContent").getD .null⟩

/-- The contents can be printed if they are null or have elements. -/
theorem hasContents_iff : HasContents document ↔
    (held document mappings sources names).sourcesContent = .null ∨
      ∃ items, elements (held document mappings sources names).sourcesContent = .ok items := by
  unfold HasContents held
  cases Dictionary.get? document "sourcesContent" with
  | none => simp
  | some v => simp

variable (hsources : Dictionary.get? document "sources" = some (.list sources))
  (hnames : Dictionary.get? document "names" = some (.list names))

include hsources hnames

/-- What a document has can be read, if the document can. -/
theorem holdsReadable_held (h : IsReadable (.table document)) (mappings : String) :
    (held document mappings sources names).HoldsReadable := by
  have hfields : ∀ p ∈ document, IsReadable p.2 := by
    cases h with
    | table hkeys hfields => exact hfields
  have hlist : ∀ {key items}, Dictionary.get? document key = some (.list items) →
      ∀ v ∈ items, IsReadable v := by
    intro key items hget
    cases hfields _ (Dictionary.mem_of_get?_eq_some hget) with
    | list hitems => exact hitems
  -- the two fields that may be missing are null then
  have hoptional : ∀ key, IsReadable ((Dictionary.get? document key).getD .null) := by
    intro key
    cases hget : Dictionary.get? document key with
    | none => exact .null
    | some v => exact hfields _ (Dictionary.mem_of_get?_eq_some hget)
  exact ⟨hlist hsources, hlist hnames, hoptional "file", hoptional "sourcesContent"⟩

/-- What is found at a key is written there exactly if it is kept. -/
theorem written?_held_iff (key : String) :
    (held document mappings sources names).written? key = Dictionary.get? document key ↔
      IsKept document key := by
  by_cases hfile : key = "file"
  · subst hfile
    cases hget : Dictionary.get? document "file" with
    | none => simp [written?, held, hget, IsKept, Value.isNull]
    | some v => cases v <;> simp [written?, held, hget, IsKept, Value.isNull]
  by_cases hsource : key = "sources"
  · subst hsource
    simp [written?, held, hsources, IsKept]
  by_cases hname : key = "names"
  · subst hname
    simp [written?, held, hnames, IsKept]
  by_cases hcontent : key = "sourcesContent"
  · subst hcontent
    cases hget : Dictionary.get? document "sourcesContent" with
    | none => simp [written?, held, hget, IsKept, Value.isNull]
    | some v =>
      -- a text and a table come back as lists, and nothing else stands for one
      cases v <;>
        simp [written?, held, hget, IsKept, Value.isNull, elements, Except.toOption]
  · have hnone : (held document mappings sources names).written? key = none := by
      simp [written?, hfile, hsource, hname, hcontent]
    rw [hnone]
    cases hget : Dictionary.get? document key with
    | none => simp [IsKept, hget]
    | some v => simp [IsKept, hget, hfile, hsource, hname, hcontent]

variable (hmappings : Dictionary.get? document "mappings" = some (.text mappings))

include hmappings

/-- What is taken from a document with the three fields that must be there. -/
theorem ofValue_table : ofValue (.table document) = .ok (held document mappings sources names) := by
  simp only [ofValue, Value.field?, hmappings, hsources, hnames, Option.getD_some]
  rfl

variable {text code : String} {ps : List Patch} (hread : Json.read text = .ok (.table document))

include hread

/-- What a map that was moved is written as. -/
theorem shiftText_eq :
    shiftText text code ps =
      (held document mappings sources names).shift (Utf8.encode code) ps >>= toText := by
  unfold shiftText ofText
  rw [hread]
  show (ofValue (.table document) >>= _) = _
  rw [ofValue_table hsources hnames hmappings]
  rfl

/-- Accepted patches move a document, and it is written, exactly if it has contents to write. -/
theorem exists_shiftText_iff {read : Mappings} {out : List UInt8}
    (hdecoded : decodeMappings mappings.toList = .ok read)
    (happlied : applyToBytes (Utf8.encode code) ps = .ok out) :
    (∃ written, shiftText text code ps = .ok written) ↔ HasContents document := by
  obtain ⟨moved, hmoved⟩ := exists_shift (m := held document mappings sources names) hdecoded
    happlied
  rw [shiftText_eq hsources hnames hmappings hread, hmoved]
  show (∃ written, moved.toText = .ok written) ↔ _
  rw [exists_toText_iff, shift_eq_ok hmoved, hasContents_iff]

/-- A document that was moved is read as what its map is written with. -/
theorem read_shiftText {written : String} (h : shiftText text code ps = .ok written) :
    ∃ printed, Json.read written = .ok (.table printed) ∧
      ∀ key, key ≠ "version" → key ≠ "mappings" →
        Dictionary.get? printed key = (held document mappings sources names).written? key := by
  rw [shiftText_eq hsources hnames hmappings hread] at h
  obtain ⟨moved, hmoved, hwritten⟩ := Traversal.bind_eq_ok_iff.mp h
  rw [shift_eq_ok hmoved] at hwritten
  have hholds := holdsReadable_held hsources hnames (Json.isReadable_of_read hread) mappings
  obtain ⟨printed, hfields, hprinted⟩ := read_toText (hholds.withMappings _) hwritten
  exact ⟨printed, hprinted, fun key hversion hkey => get?_fields hfields hversion hkey⟩

end Documents

/-- **What a map keeps when it is moved.** A document with lists of sources and of names is moved by
accepted patches exactly if its contents are absent or stand for a list, and what comes back agrees
with it at just the keys that are kept. -/
theorem shiftText_keeps_iff {text code : String} {document : Value.Fields} {mappings : String}
    {sources names : List Value} {ps : List Patch} {out : List UInt8}
    (hread : Json.read text = .ok (.table document))
    (hmappings : Dictionary.get? document "mappings" = some (.text mappings))
    (hsources : Dictionary.get? document "sources" = some (.list sources))
    (hnames : Dictionary.get? document "names" = some (.list names))
    (happlied : applyToBytes (Utf8.encode code) ps = .ok out) :
    (∀ read, decodeMappings mappings.toList = .ok read →
      ((∃ written, shiftText text code ps = .ok written) ↔ HasContents document)) ∧
    ∀ written, shiftText text code ps = .ok written →
      ∃ printed, Json.read written = .ok (.table printed) ∧
        ∀ key, key ≠ "version" → key ≠ "mappings" →
          (Dictionary.get? printed key = Dictionary.get? document key ↔ IsKept document key) := by
  refine ⟨fun read hdecoded => ?_, fun written h => ?_⟩
  · exact exists_shiftText_iff hsources hnames hmappings hread hdecoded happlied
  · obtain ⟨printed, hprinted, hwritten⟩ := read_shiftText hsources hnames hmappings hread h
    refine ⟨printed, hprinted, fun key hversion hkey => ?_⟩
    rw [hwritten key hversion hkey]
    exact written?_held_iff hsources hnames key

/-! ## A root that is lost -/

/-- A document with a root for its sources. -/
def withSourceRoot : Value.Fields :=
  [("version", .int 3), ("sourceRoot", .text "../"), ("sources", .list [.text "a.ts"]),
    ("names", .list []), ("mappings", .text "AAAA")]

/-- The document of the example reads as it was written. -/
theorem read_withSourceRoot :
    Json.read (Json.write (.table withSourceRoot)) = .ok (.table withSourceRoot) := by
  refine Json.read_write (.table (by decide) fun p hp => ?_)
  simp only [withSourceRoot, List.mem_cons, List.not_mem_nil, or_false] at hp
  rcases hp with rfl | rfl | rfl | rfl | rfl
  · exact isReadable_version
  · exact .text _
  · exact .list (List.forall_mem_singleton.mpr (.text _))
  · exact .list (by simp)
  · exact .text _

def markBeforeCall : Patch :=
  .insertion 0 "/*@__PURE__*/"

theorem exists_patched_call :
    ∃ out, applyToBytes (Utf8.encode "f()") [markBeforeCall] = .ok out := by
  have hsome : (applyToBytes (Utf8.encode "f()") [markBeforeCall]).toOption.isSome = true := by
    decide +kernel
  obtain ⟨out, hout⟩ := Option.isSome_iff_exists.mp hsome
  exact ⟨out, Traversal.toOption_eq_some_iff.mp hout⟩

/-- A map with a `sourceRoot`, and one insertion. -/
theorem shiftText_keeps_iff_sourceRoot :
    ∃ out, Json.read (Json.write (.table withSourceRoot)) = .ok (.table withSourceRoot) ∧
      Dictionary.get? withSourceRoot "mappings" = some (.text "AAAA") ∧
      Dictionary.get? withSourceRoot "sources" = some (.list [.text "a.ts"]) ∧
      Dictionary.get? withSourceRoot "names" = some (.list []) ∧
      applyToBytes (Utf8.encode "f()") [markBeforeCall] = .ok out ∧
      (∀ read, decodeMappings "AAAA".toList = .ok read →
        ((∃ written,
            shiftText (Json.write (.table withSourceRoot)) "f()" [markBeforeCall] = .ok written) ↔
          HasContents withSourceRoot)) ∧
      ∀ written, shiftText (Json.write (.table withSourceRoot)) "f()" [markBeforeCall] = .ok written →
        ∃ printed, Json.read written = .ok (.table printed) ∧
          ∀ key, key ≠ "version" → key ≠ "mappings" →
            (Dictionary.get? printed key = Dictionary.get? withSourceRoot key ↔
              IsKept withSourceRoot key) := by
  obtain ⟨out, hout⟩ := exists_patched_call
  exact ⟨out, read_withSourceRoot, rfl, rfl, rfl, hout,
    shiftText_keeps_iff read_withSourceRoot rfl rfl rfl hout⟩

/-- A document comes back without the root that it had. -/
theorem exists_lost_root :
    ∃ out written printed, applyToBytes (Utf8.encode "f()") [markBeforeCall] = .ok out ∧
      Json.read (Json.write (.table withSourceRoot)) = .ok (.table withSourceRoot) ∧
      shiftText (Json.write (.table withSourceRoot)) "f()" [markBeforeCall] = .ok written ∧
      Json.read written = .ok (.table printed) ∧
      Dictionary.get? withSourceRoot "sourceRoot" = some (.text "../") ∧
      Dictionary.get? printed "sourceRoot" = none := by
  obtain ⟨out, hout⟩ := exists_patched_call
  have hdecoded : decodeMappings "AAAA".toList = .ok [[[0, 0, 0, 0]]] := by decide +kernel
  -- there are no contents, so the map can be printed
  have hcontents : HasContents withSourceRoot := fun v hv =>
    absurd hv (by simp [withSourceRoot, Dictionary.get?])
  obtain ⟨written, hwritten⟩ :=
    (exists_shiftText_iff rfl rfl rfl read_withSourceRoot hdecoded hout).mpr hcontents
  obtain ⟨printed, hprinted, hkeys⟩ := read_shiftText rfl rfl rfl read_withSourceRoot hwritten
  exact ⟨out, written, printed, hout, read_withSourceRoot, hwritten, hprinted, rfl,
    hkeys "sourceRoot" (by decide) (by decide)⟩

end Packwright.SourceMap
