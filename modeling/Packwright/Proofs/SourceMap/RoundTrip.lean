import Packwright.Proofs.SourceMap.Keeping

/-!
# Maps are read as they are written

The document of a map is read as that map (`ofText_toText`), as long as its contents are absent or a
list: contents that are a text or a table would come back as the list of their characters or keys.

* `ofValue_fields`: the fields that a map is written with make up the map. A file or contents that
  are left out are the ones that a reader takes to be null.
* `readsBack_ofTexts`: this is so for every map that is made of texts.
-/

namespace Packwright.SourceMap

open Json (IsReadable)

variable {m : SourceMap} {printed : Value.Fields}

/-! ## From the fields to the map -/

/-- The mappings are printed last, under their own key. -/
theorem get?_mappings (h : m.fields = .ok printed) :
    Dictionary.get? printed "mappings" = some (.text m.mappings) := by
  have hnodup := nodup_keys_fields h
  obtain ⟨contents, -, rfl⟩ := eq_of_fields h
  apply Dictionary.get?_eq_some_of_mem hnodup
  simp

theorem eq_null_of_isNull {v : Value} (h : v.isNull = true) : v = .null := by
  cases v with
  | null => rfl
  | _ => exact absurd h Bool.false_ne_true

/-- A file that is null is not written, and read as null. -/
theorem getD_written?_file : (m.written? "file").getD .null = m.file := by
  show ((if m.file.isNull then none else some m.file).getD .null : Value) = m.file
  cases hnull : m.file.isNull with
  | true => exact (eq_null_of_isNull hnull).symm
  | false => rfl

/-- So are contents, if they are null or a list. -/
theorem getD_written?_sourcesContent
    (h : m.sourcesContent = .null ∨ ∃ items, m.sourcesContent = .list items) :
    (m.written? "sourcesContent").getD .null = m.sourcesContent := by
  show ((if m.sourcesContent.isNull then none
    else (elements m.sourcesContent).toOption.map .list).getD .null : Value) = m.sourcesContent
  -- absent contents stay absent, and an empty list is still a list
  obtain hnull | ⟨items, hitems⟩ := h
  · rw [hnull]
    rfl
  · rw [hitems]
    rfl

/-- The fields that a map is written with make up the map. -/
theorem ofValue_fields (h : m.fields = .ok printed)
    (hcontents : m.sourcesContent = .null ∨ ∃ items, m.sourcesContent = .list items) :
    ofValue (.table printed) = .ok m := by
  have hmappings : (Value.table printed).field? "mappings" = some (.text m.mappings) :=
    get?_mappings h
  -- the four fields are read as they were written; the version is not read
  have hwritten : ∀ key, key ≠ "version" → key ≠ "mappings" →
      (Value.table printed).field? key = m.written? key := fun key => get?_fields h
  have hsources : m.written? "sources" = some (.list m.sources) := rfl
  have hnames : m.written? "names" = some (.list m.names) := rfl
  unfold ofValue
  rw [hmappings]
  dsimp only
  rw [hwritten "sources" (by decide) (by decide), hwritten "names" (by decide) (by decide),
    hwritten "file" (by decide) (by decide), hwritten "sourcesContent" (by decide) (by decide),
    hsources, hnames, getD_written?_file, getD_written?_sourcesContent hcontents]
  rfl

/-! ## Through the text -/

/-- **The document of a map is read as the map**, if its contents are absent or a list. -/
theorem ofText_toText (hm : m.HoldsReadable)
    (hcontents : m.sourcesContent = .null ∨ ∃ items, m.sourcesContent = .list items) :
    ∃ text, m.toText = .ok text ∧ ofText text = .ok m := by
  obtain ⟨text, htext⟩ : ∃ text, m.toText = .ok text := by
    apply exists_toText_iff.mpr
    exact hcontents.imp_right fun ⟨items, hitems⟩ => ⟨items, by rw [hitems]; rfl⟩
  obtain ⟨printed, hfields, hread⟩ := read_toText hm htext
  refine ⟨text, htext, ?_⟩
  rw [ofText, hread]
  exact ofValue_fields hfields hcontents

/-- A map that is made of texts. The file may be absent, and so may the contents, all of them or
that of a single source. -/
def ofTexts (mappings : String) (sources names : List String) (file? : Option String)
    (contents? : Option (List (Option String))) : SourceMap where
  mappings := mappings
  sources := sources.map .text
  names := names.map .text
  file := .ofText? file?
  sourcesContent := (contents?.map fun contents => Value.list (contents.map .ofText?)).getD .null

theorem isReadable_ofText? (s? : Option String) : IsReadable (.ofText? s?) := by
  cases s? with
  | none => exact .null
  | some s => exact .text s

theorem isReadable_of_mem_map {α : Type} {f : α → Value} {xs : List α}
    (h : ∀ x, IsReadable (f x)) : ∀ v ∈ xs.map f, IsReadable v := by
  intro v hv
  obtain ⟨x, -, rfl⟩ := List.mem_map.mp hv
  exact h x

variable (mappings : String) (sources names : List String) (file? : Option String)
  (contents? : Option (List (Option String)))

/-- A map of texts holds readable values. -/
theorem holdsReadable_ofTexts : (ofTexts mappings sources names file? contents?).HoldsReadable where
  sources := isReadable_of_mem_map .text
  names := isReadable_of_mem_map .text
  file := isReadable_ofText? file?
  sourcesContent := by
    cases contents? with
    | none => exact .null
    | some contents => exact .list (isReadable_of_mem_map isReadable_ofText?)

/-- **Every map of texts is written, and read back as it was.** -/
theorem readsBack_ofTexts :
    ∃ text, (ofTexts mappings sources names file? contents?).toText = .ok text ∧
      ofText text = .ok (ofTexts mappings sources names file? contents?) := by
  apply ofText_toText (holdsReadable_ofTexts mappings sources names file? contents?)
  cases contents? with
  | none => exact .inl rfl
  | some contents => exact .inr ⟨_, rfl⟩

end Packwright.SourceMap
