import Packwright.Proofs.Dictionary.Ascending
import Packwright.Proofs.Disk.Walk
import Packwright.Proofs.Json.RoundTrip
import Packwright.Proofs.Traversal
import Packwright.Unit.Load

/-!
# Loading a manifest

A manifest is loaded exactly if its file holds a document that says it, and refused exactly for what
is wrong with the file or the document. Some states of the file are neither: it is loaded or refused
exactly if there is no file, or one that can be read as a text whose numbers are not too long
(`load_settles`).

* `StandsIn` says which manifest stands in a document. There is one at most, since its dependencies
  are those of the document in ascending order.
* `Faulty` and `Refuses` say which error is due to what.
-/

namespace Packwright.Manifest

open Packwright.Text
open Json (IsReadable)

/-! ## What a document says -/

/-- Whether some dependencies are those that the fields of a document declare: the entries whose
version is a text, in ascending order; none if the key is absent. -/
structure AreDeclared (dependencies : Dictionary String String) (fields : Value.Fields) : Prop where
  entries : ∃ declared : Value.Fields,
    (Dictionary.get? fields "dependencies").getD (.table []) = .table declared ∧
      ∀ key version, (key, version) ∈ dependencies ↔
        Dictionary.get? declared key = some (.text version)
  ascending : Dictionary.Ascending dependencies

/-- Whether a manifest stands in a document. -/
structure StandsIn (m : Manifest) (fields : Value.Fields) : Prop where
  name : Dictionary.get? fields "name" = some (.text m.name)
  named : m.name ≠ ""
  dependencies : AreDeclared m.dependencies fields

/-- What is wrong with a document that no manifest stands in. -/
inductive Faulty (path : String) : Value → Error → Prop
  | notAnObject {v : Value} (hnot : v.isTable = false) : Faulty path v (.notAnObject path)
  | noName {fields : Value.Fields}
      (hnone : ∀ name, Dictionary.get? fields "name" = some (.text name) → name = "") :
      Faulty path (.table fields) (.noName path)
  | badDependencies {fields : Value.Fields} {name : String} {v : Value}
      (hname : Dictionary.get? fields "name" = some (.text name)) (hne : name ≠ "")
      (hv : Dictionary.get? fields "dependencies" = some v) (hnot : v.isTable = false) :
      Faulty path (.table fields) (.badDependencies path)

section Documents

variable {path : String} {fields declared : Value.Fields}

/-- The entries of a table whose values are texts. -/
theorem mem_texts_iff (hkeys : (Dictionary.keys declared).Nodup) (key version : String) :
    (key, version) ∈ declared.filterMap (fun (k, v) => v.text?.map fun s => (k, s)) ↔
      Dictionary.get? declared key = some (.text version) := by
  rw [List.mem_filterMap]
  constructor
  · rintro ⟨⟨k, v⟩, hmem, htext⟩
    obtain ⟨s, hs, heq⟩ := Option.map_eq_some_iff.mp htext
    obtain ⟨rfl, rfl⟩ := Prod.mk.inj heq
    obtain rfl := Value.text?_eq_some_iff.mp hs
    exact Dictionary.get?_eq_some_of_mem hkeys hmem
  · intro hget
    exact ⟨(key, .text version), Dictionary.mem_of_get?_eq_some hget, rfl⟩

/-- Taking the texts among the declared values repeats no key. -/
theorem nodup_keys_texts (hkeys : (Dictionary.keys declared).Nodup) :
    (Dictionary.keys (declared.filterMap fun (k, v) => v.text?.map fun s => (k, s))).Nodup := by
  refine List.Sublist.nodup ?_ hkeys
  show List.Sublist ((declared.filterMap _).map Prod.fst) (declared.map Prod.fst)
  induction declared with
  | nil => exact .slnil
  | cons p rest ih =>
    obtain ⟨k, v⟩ := p
    have hrest := ih (List.nodup_cons.mp hkeys).2
    cases v with
    | text s => exact hrest.cons_cons k
    | _ => exact hrest.cons k

/-- The dependencies, by an `iff`: the texts that are declared, or none where nothing is. -/
theorem dependenciesOf_eq_ok_iff (hfields : IsReadable (.table fields))
    {dependencies : Dictionary String String} :
    dependenciesOf path (.table fields) = .ok dependencies ↔ AreDeclared dependencies fields := by
  have hdeclared : ∀ declared, (Dictionary.get? fields "dependencies").getD (.table []) =
      .table declared → (Dictionary.keys declared).Nodup := by
    intro declared heq
    cases hfields with
    | table hkeys hvalues =>
      cases hget : Dictionary.get? fields "dependencies" with
      | none =>
        rw [hget] at heq
        obtain rfl : [] = declared := Value.table.inj heq
        exact List.nodup_nil
      | some v =>
        rw [hget] at heq
        obtain rfl : v = .table declared := heq
        cases hvalues _ (Dictionary.mem_of_get?_eq_some hget) with
        | table hnodup _ => exact hnodup
  unfold dependenciesOf
  rw [Value.field?]
  constructor
  · intro h
    split at h
    · rename_i declared heq
      have hkeys := hdeclared declared heq
      obtain rfl := Except.ok.inj h
      refine ⟨⟨declared, heq, fun key version => ?_⟩, ?_⟩
      · rw [List.mem_mergeSort]
        exact mem_texts_iff hkeys key version
      · exact Dictionary.ascending_mergeSort (nodup_keys_texts hkeys)
    · exact absurd h (by simp)
  · rintro ⟨⟨declared, heq, hentries⟩, hascending⟩
    have hkeys := hdeclared declared heq
    rw [heq]
    dsimp only
    -- both are ascending, so it is enough that they have the same entries
    refine congrArg Except.ok (Dictionary.Ascending.ext ?_ hascending ?_)
    · exact Dictionary.ascending_mergeSort (nodup_keys_texts hkeys)
    · rintro ⟨key, version⟩
      rw [List.mem_mergeSort, hentries]
      exact mem_texts_iff hkeys key version

/-- They are refused exactly if something else than a table is declared. -/
theorem dependenciesOf_eq_error_iff {cause : Error} :
    dependenciesOf path (.table fields) = .error cause ↔
      cause = .badDependencies path ∧
        ∃ v, Dictionary.get? fields "dependencies" = some v ∧ v.isTable = false := by
  unfold dependenciesOf
  rw [Value.field?]
  cases hget : Dictionary.get? fields "dependencies" with
  | none => simp
  | some v =>
    cases v with
    | table declared => simp [Value.isTable]
    | _ => simpa [Value.isTable] using eq_comm

/-! ## The manifest of a document -/

/-- Where a document has a name, its dependencies decide. -/
theorem ofValue_of_named {name : String}
    (hname : Dictionary.get? fields "name" = some (.text name)) (hne : name ≠ "") :
    ofValue path (.table fields) =
      (dependenciesOf path (.table fields)).map fun dependencies => ⟨name, dependencies⟩ := by
  have hnotEmpty : ¬ name.isEmpty = true := fun hempty => hne (String.isEmpty_iff.mp hempty)
  unfold ofValue
  rw [Value.field?, hname]
  simp only [Value.isTable, Bool.not_true, Bool.false_eq_true, if_false, if_neg hnotEmpty]

/-- Without a name the manifest is refused, whatever else it says. -/
theorem ofValue_of_nameless
    (hnone : ∀ name, Dictionary.get? fields "name" = some (.text name) → name = "") :
    ofValue path (.table fields) = .error (.noName path) := by
  unfold ofValue
  rw [Value.field?]
  split
  · rename_i hnot
    exact absurd hnot Bool.false_ne_true
  · split
    · rename_i name hname
      rw [hnone name hname]
      rfl
    · rfl

/-- Either a document has a name, or nothing else of it matters. -/
theorem named_or_nameless (fields : Value.Fields) :
    (∃ name, Dictionary.get? fields "name" = some (.text name) ∧ name ≠ "") ∨
      ∀ name, Dictionary.get? fields "name" = some (.text name) → name = "" := by
  by_cases h : ∃ name, Dictionary.get? fields "name" = some (.text name) ∧ name ≠ ""
  · exact .inl h
  · exact .inr fun name hname => Decidable.byContradiction fun hne => h ⟨name, hname, hne⟩

variable {v : Value}

/-- **A manifest is read from a document exactly if it stands in it.** -/
theorem ofValue_eq_ok_iff (hv : IsReadable v) {m : Manifest} :
    ofValue path v = .ok m ↔ ∃ fields, v = .table fields ∧ m.StandsIn fields := by
  cases v with
  | table fields =>
    have hdependencies : ∀ {dependencies}, dependenciesOf path (.table fields) = .ok dependencies ↔
        AreDeclared dependencies fields := dependenciesOf_eq_ok_iff hv
    constructor
    · intro h
      refine ⟨fields, rfl, ?_⟩
      -- the name is asked for before the dependencies
      obtain ⟨name, hname, hne⟩ | hnone := named_or_nameless fields
      · rw [ofValue_of_named hname hne] at h
        cases hdeclared : dependenciesOf path (.table fields) with
        | error e =>
          rw [hdeclared] at h
          exact nomatch h
        | ok dependencies =>
          rw [hdeclared] at h
          obtain rfl := Except.ok.inj h
          exact ⟨hname, hne, hdependencies.mp hdeclared⟩
      · rw [ofValue_of_nameless hnone] at h
        exact nomatch h
    · rintro ⟨_, heq, hm⟩
      obtain rfl := Value.table.inj heq
      rw [ofValue_of_named hm.name hm.named, hdependencies.mpr hm.dependencies]
      rfl
  | _ => simp [ofValue, Value.isTable]

/-- **A document is refused exactly for what is wrong with it.** -/
theorem ofValue_eq_error_iff {cause : Error} :
    ofValue path v = .error cause ↔ Faulty path v cause := by
  constructor
  · intro h
    cases v with
    | table fields =>
      obtain ⟨name, hname, hne⟩ | hnone := named_or_nameless fields
      · rw [ofValue_of_named hname hne] at h
        cases hdeclared : dependenciesOf path (.table fields) with
        | ok dependencies =>
          rw [hdeclared] at h
          exact nomatch h
        | error e =>
          rw [hdeclared] at h
          obtain rfl := Except.error.inj h
          obtain ⟨rfl, v, hv, hnot⟩ := dependenciesOf_eq_error_iff.mp hdeclared
          exact .badDependencies hname hne hv hnot
      · rw [ofValue_of_nameless hnone] at h
        obtain rfl := Except.error.inj h
        exact .noName hnone
    | _ =>
      obtain rfl := Except.error.inj h
      exact .notAnObject rfl
  · intro h
    cases h with
    | notAnObject hnot => simp [ofValue, hnot]
    | noName hnone => exact ofValue_of_nameless hnone
    | badDependencies hname hne hv hnot =>
      rw [ofValue_of_named hname hne, dependenciesOf_eq_error_iff.mpr ⟨rfl, _, hv, hnot⟩]
      rfl

end Documents

/-! ## The file of a manifest -/

section Files

variable (disk : Disk) (root : FilePath)

/-- Whether the manifest of a root holds a document. -/
def HoldsDocument (v : Value) : Prop :=
  ∃ text, disk.readText (root.child fileName) = .ok text ∧ Json.read text = .ok v

/-- What a manifest is refused for: there is none, it is no document, or the document is faulty. -/
inductive Refuses : Error → Prop
  | missing {cause : Disk.Error} (hread : disk.read (root.child fileName) = .error cause)
      (hcause : cause.cause = .notFound) : Refuses (.missing root.toString)
  | invalid {text : String} {complaint : Json.Complaint} {line column offset : Nat}
      (htext : disk.readText (root.child fileName) = .ok text)
      (hread : Json.read text = .error (.malformed complaint line column offset)) :
      Refuses (.invalid (root.child fileName).toString
        (Json.ReadError.malformed complaint line column offset).message)
  | faulty {v : Value} {cause : Error} (hdocument : HoldsDocument disk root v)
      (hfault : Faulty (root.child fileName).toString v cause) : Refuses cause

/-- Whether there is no manifest, or one whose bytes are a text in which no number is too long. -/
inductive IsLegible : Prop
  | absent {cause : Disk.Error} (hread : disk.read (root.child fileName) = .error cause)
      (hcause : cause.cause = .notFound)
  | file {bytes : List UInt8} {text : List Char}
      (hread : disk.read (root.child fileName) = .ok bytes)
      (hdecoded : Utf8.decodeChars bytes = .ok text)
      (hshort : ∀ count, Json.read (String.ofList (unifyNewlines text)) ≠ .error (.tooManyDigits count))

variable {disk root}

/-- Reading a text fails at the disk exactly if reading its bytes does. -/
theorem readText_eq_disk_iff {p : FilePath} {cause : Disk.Error} :
    disk.readText p = .error (.disk cause) ↔ disk.read p = .error cause := by
  unfold Disk.readText
  cases disk.read p with
  | error e => simp
  | ok bytes => cases hdecoded : Utf8.decodeChars bytes <;> simp [hdecoded]

/-- It succeeds if the bytes are those of characters, and its newlines are made alike. -/
theorem readText_eq_ok_iff {p : FilePath} {text : String} :
    disk.readText p = .ok text ↔ ∃ bytes s, disk.read p = .ok bytes ∧
      Utf8.decodeChars bytes = .ok s ∧ text = String.ofList (unifyNewlines s) := by
  unfold Disk.readText
  cases disk.read p with
  | error e => simp
  | ok bytes =>
    cases hdecoded : Utf8.decodeChars bytes with
    | error e => simp [hdecoded]
    | ok s => simpa [hdecoded] using eq_comm

/-- The outcome of loading where there is a document. -/
theorem load_of_holdsDocument {v : Value} (h : HoldsDocument disk root v) :
    load disk root = (ofValue (root.child fileName).toString v).mapError .manifest := by
  obtain ⟨text, htext, hread⟩ := h
  unfold load
  simp only [htext, hread]

/-- **A manifest is loaded exactly if it stands in the document of its file.** -/
theorem load_eq_ok_iff {m : Manifest} :
    load disk root = .ok m ↔
      ∃ fields, HoldsDocument disk root (.table fields) ∧ m.StandsIn fields := by
  constructor
  · intro h
    obtain ⟨v, hdocument⟩ : ∃ v, HoldsDocument disk root v := by
      unfold load at h
      dsimp only at h
      split at h
      · split at h <;> exact nomatch h
      · exact nomatch h
      · rename_i text htext
        split at h
        · exact nomatch h
        · exact nomatch h
        · rename_i v hread
          exact ⟨v, text, htext, hread⟩
    rw [load_of_holdsDocument hdocument, Traversal.mapError_eq_ok_iff] at h
    obtain ⟨text, htext, hread⟩ := hdocument
    obtain ⟨fields, rfl, hm⟩ := (ofValue_eq_ok_iff (Json.isReadable_of_read hread)).mp h
    exact ⟨fields, ⟨text, htext, hread⟩, hm⟩
  · rintro ⟨fields, hdocument, hm⟩
    rw [load_of_holdsDocument hdocument, Traversal.mapError_eq_ok_iff]
    obtain ⟨text, -, hread⟩ := hdocument
    exact (ofValue_eq_ok_iff (Json.isReadable_of_read hread)).mpr ⟨fields, rfl, hm⟩

/-- A cause that the manifest gives comes from the manifest. -/
theorem mapError_manifest_eq_iff {x : Except Error Manifest} {cause : Error} :
    x.mapError Failure.manifest = .error (.manifest cause) ↔ x = .error cause := by
  cases x with
  | ok m => simp [Except.mapError]
  | error e => simp [Except.mapError]

/-- **A manifest is refused exactly for what is wrong with it.** -/
theorem load_eq_manifest_iff {cause : Error} :
    load disk root = .error (.manifest cause) ↔ Refuses disk root cause := by
  constructor
  · intro h
    -- the file has no text, a text that is no document, or a document
    cases htext : disk.readText (root.child fileName) with
    | error e =>
      unfold load at h
      simp only [htext] at h
      cases e with
      | undecodable e => exact nomatch h
      | disk e =>
        dsimp only at h
        split at h
        · rename_i hcause
          obtain rfl := Failure.manifest.inj (Except.error.inj h)
          exact .missing (readText_eq_disk_iff.mp htext) hcause
        · exact nomatch h
    | ok text =>
      cases hread : Json.read text with
      | ok v =>
        rw [load_of_holdsDocument ⟨text, htext, hread⟩] at h
        exact .faulty ⟨text, htext, hread⟩
          (ofValue_eq_error_iff.mp (mapError_manifest_eq_iff.mp h))
      | error e =>
        unfold load at h
        simp only [htext, hread] at h
        cases e with
        | tooManyDigits count => exact nomatch h
        | malformed complaint line column offset =>
          obtain rfl := Failure.manifest.inj (Except.error.inj h)
          exact .invalid htext hread
  · intro h
    cases h with
    | missing hread hcause =>
      unfold load
      simp only [readText_eq_disk_iff.mpr hread, if_pos hcause]
    | invalid htext hread =>
      unfold load
      simp only [htext, hread]
    | faulty hdocument hfault =>
      rw [load_of_holdsDocument hdocument]
      exact mapError_manifest_eq_iff.mpr (ofValue_eq_error_iff.mpr hfault)

/-- Where there is a document, it is settled what becomes of it. -/
theorem settles_of_holdsDocument {v : Value} (h : HoldsDocument disk root v) :
    (∃ m, load disk root = .ok m) ∨ ∃ cause, load disk root = .error (.manifest cause) := by
  rw [load_of_holdsDocument h]
  cases ofValue (root.child fileName).toString v with
  | ok m => exact .inl ⟨m, rfl⟩
  | error cause => exact .inr ⟨cause, rfl⟩

/-- **A manifest is loaded exactly if it stands in the document of its file, and refused exactly for
what is wrong with it.** One of the two comes about exactly if there is no file, or one whose bytes
are a text in which no number is too long. -/
theorem load_settles (disk : Disk) (root : FilePath) :
    (∀ m, load disk root = .ok m ↔
      ∃ fields, HoldsDocument disk root (.table fields) ∧ m.StandsIn fields) ∧
    (∀ cause, load disk root = .error (.manifest cause) ↔ Refuses disk root cause) ∧
    (((∃ m, load disk root = .ok m) ∨ ∃ cause, load disk root = .error (.manifest cause)) ↔
      IsLegible disk root) := by
  refine ⟨fun m => load_eq_ok_iff, fun cause => load_eq_manifest_iff, ?_⟩
  constructor
  · -- what is loaded or refused comes from a text, or there was nothing to read
    have hfile : ∀ {text}, disk.readText (root.child fileName) = .ok text →
        (∀ count, Json.read text ≠ .error (.tooManyDigits count)) → IsLegible disk root := by
      intro text htext hshort
      obtain ⟨bytes, s, hread, hdecoded, rfl⟩ := readText_eq_ok_iff.mp htext
      exact .file hread hdecoded hshort
    rintro (⟨m, hm⟩ | ⟨cause, hcause⟩)
    · obtain ⟨fields, ⟨text, htext, hread⟩, -⟩ := load_eq_ok_iff.mp hm
      exact hfile htext fun count hlong => nomatch hread.symm.trans hlong
    · cases load_eq_manifest_iff.mp hcause with
      | missing hread hmissing => exact .absent hread hmissing
      | invalid htext hread => exact hfile htext fun count hlong => nomatch hread.symm.trans hlong
      | faulty hdocument _ =>
        obtain ⟨text, htext, hread⟩ := hdocument
        exact hfile htext fun count hlong => nomatch hread.symm.trans hlong
  · intro h
    cases h with
    | absent hread hcause => exact .inr ⟨_, load_eq_manifest_iff.mpr (.missing hread hcause)⟩
    | file hread hdecoded hshort =>
      have htext := readText_eq_ok_iff.mpr ⟨_, _, hread, hdecoded, rfl⟩
      cases hdocument : Json.read _ with
      | ok v => exact settles_of_holdsDocument ⟨_, htext, hdocument⟩
      | error e =>
        cases e with
        | tooManyDigits count => exact absurd hdocument (hshort count)
        | malformed complaint line column offset =>
          exact .inr ⟨_, load_eq_manifest_iff.mpr (.invalid htext hdocument)⟩

end Files

/-! ### Files that are neither loaded nor refused -/

def rootWith (manifest : Packwright.Entry) : Disk :=
  ⟨[(["w"], .directory), (["w", "package.json"], manifest)], ["w"]⟩

/-- What stands in the place of the manifest of the example is found there. -/
theorem walk_rootWith {e : Packwright.Entry} (hnot : ∀ target, e ≠ .link target) :
    (rootWith e).walk true (.ofLocation ["w", "package.json"]) =
      .ok (.entry ["w", "package.json"] e) := by
  refine Disk.walk_eq_ok_iff.mpr ⟨?_, .down rfl ⟨by decide, by decide⟩ rfl nofun ?_⟩
  · simp [Disk.holdsNull_eq, FilePath.ofLocation]
  · exact .down rfl ⟨by decide, by decide⟩ rfl hnot (.arrived rfl)

/-- **A directory is no manifest, and neither are bytes that are no text**, but no error of a
manifest says so. -/
theorem exists_unsettled :
    load (rootWith .directory) (.ofLocation ["w"]) =
        .error (.disk ⟨.isADirectory, "/w/package.json"⟩) ∧
      load (rootWith (.file [0xff])) (.ofLocation ["w"]) =
        .error (.undecodable ⟨.invalidStart, 0, [0xff]⟩) := by
  have hpath : (FilePath.ofLocation ["w"]).child fileName = .ofLocation ["w", "package.json"] := by
    decide
  constructor
  · have hread : (rootWith .directory).read (.ofLocation ["w", "package.json"]) =
        .error ⟨.isADirectory, "/w/package.json"⟩ := by
      unfold Disk.read
      rw [walk_rootWith (e := .directory) nofun]
      rfl
    unfold load
    simp only [hpath, readText_eq_disk_iff.mpr hread]
    rfl
  · have htext : (rootWith (.file [0xff])).readText (.ofLocation ["w", "package.json"]) =
        .error (.undecodable ⟨.invalidStart, 0, [0xff]⟩) := by
      unfold Disk.readText Disk.read
      rw [walk_rootWith (e := .file [0xff]) nofun]
      rfl
    unfold load
    simp only [hpath, htext]

end Packwright.Manifest
